import TradingEngine.Router.Ledger

/-!
# What an order would do to an instrument

The router's question about one order on a bound instrument: is it refused outright, does it only take the position
down, or what does it add to the slot's exposure, turnover and resting dollars.
-/

namespace TradingEngine.Router

open Base CoreTypes

inductive InstRefusal where
  | none
  | short
  | unpriced
  | foreign
  deriving DecidableEq, Repr

structure InstProbe where
  refusal : InstRefusal
  exit : Bool
  measure1e6 : Int
  current1e6 : Int
  projected1e6 : Int
  turnoverAdd1e6 : Int
  inventoryNow1e6 : Int
  inventoryNext1e6 : Int
  restingNext1e6 : Int
  deriving DecidableEq, Repr

namespace InstProbe

def default : InstProbe := ⟨.none, false, 0, 0, 0, 0, 0, 0, 0⟩

def refused (why : InstRefusal) : InstProbe := { default with refusal := why }

end InstProbe

/-- A fill of this side takes the position towards zero. -/
def opposes (pos : Int) (buy : Bool) : Bool := (pos > 0 ∧ buy = false) ∨ (pos < 0 ∧ buy = true)

def moved (pos qty : Int) (buy : Bool) : Int := if buy then satAdd pos qty else satSub pos qty

/-- How an order is priced on a row: exposure now and next, the order's measure and its turnover. -/
structure Quote where
  now : Int
  next : Int
  measure : Int
  turnover : Int
  deriving DecidableEq, Repr

namespace InstrumentRow

def quote (r : InstrumentRow) (pos next qty inc : Int) (buy : Bool) (px : Int) : Except InstRefusal Quote :=
  let mag := satAbs pos
  let pxAt := r.onePrice buy px
  match r.law with
  | .spot | .linear =>
    if r.law = .spot ∧ next < 0 then .error .short
    else if px ≤ 0 then .error .unpriced
    else .ok ⟨mul1e6 mag pxAt, mul1e6 (satAbs next) pxAt, mul1e6 qty pxAt, mul1e6 inc pxAt⟩
  | .inverse =>
    .ok ⟨mul1e6 mag r.unit1e6, mul1e6 (satAbs next) r.unit1e6, mul1e6 qty r.unit1e6, mul1e6 inc r.unit1e6⟩
  | .option =>
    let opensShort := buy = false ∧ next < 0
    if px ≤ 0 then .error .unpriced
    else if r.has instStale then .error .unpriced
    else if opensShort ∧ r.has instWritable = false then .error .short
    else if opensShort ∧ r.index1e6 ≤ 0 then .error .unpriced
    else
      let m := r.mark1e6
      let im :=
        if pos < 0 ∨ next < 0 then shortImPerContract r.marginIndex r.strike1e6 m r.unit1e6 (r.has instCall) else 0
      .ok ⟨if pos ≥ 0 then mul1e6 mag m else mul1e6 mag im,
        if next ≥ 0 then mul1e6 next m else mul1e6 (satAbs next) im,
        if buy then mul1e6 qty px else mul1e6 inc im,
        mul1e6 inc pxAt⟩
  | .none => .error .unpriced

end InstrumentRow

namespace Ledger

/-- Where an order is judged from: the position with the slot's work on that side done, the position
the order meets, and the dollars of the order it replaces. -/
structure Standing where
  worked : Int
  pos : Int
  replaced : Int
  deriving DecidableEq, Repr

variable (l : Ledger)

/-- An order against the position meets what the slot's working orders on its side would leave of it.
A perp counts them on both sides, at the larger size of a queued modify. -/
def standing (filled : Int) (sym : SymbolId) (slot : Nat) (buy : Bool) (exclude : Option Nat)
    (perp : Bool) : Standing :=
  let against := opposes filled buy
  let working := if against || perp then l.resting.workingOn slot sym buy exclude else (0, 0, 0)
  let worked := moved filled (if perp then working.2.1 else working.1) buy
  ⟨worked, if against then worked else filled, working.2.2⟩

def priced (r : InstrumentRow) (slot : Nat) (st : Standing) (q : Quote) (qty : Int) (buy : Bool)
    (px : Int) (perp : Bool) : InstProbe :=
  let others := satAdd (l.rows.familyExposure1e6 slot) (i64Wrap (l.inst.exposure1e6 slot - r.exp1e6 slot))
  let p : InstProbe :=
    { InstProbe.default with
      measure1e6 := q.measure
      current1e6 := satAdd others q.now
      projected1e6 := satAdd others q.next
      turnoverAdd1e6 := q.turnover }
  if perp then
    let capPx := r.capPrice px
    { p with
      inventoryNow1e6 := mul1e6 (satAbs st.worked) capPx
      inventoryNext1e6 := mul1e6 (satAbs (moved st.worked qty buy)) capPx
      restingNext1e6 := satAdd (satSub (l.resting.usd1e6 slot) st.replaced) (mul1e6 qty px) }
  else p

def probe (sym : SymbolId) (slot : Nat) (qty : Int) (buy : Bool) (px : Int)
    (exclude : Option Nat) (perp : Bool) : Option InstProbe :=
  match l.inst.instFind sym with
  | none => none
  | some i =>
    let r := l.inst.rows i
    if r.owner ≠ ownerNone ∧ r.owner ≠ slot then some (.refused .foreign)
    else if slot ≥ execSlots ∨ qty ≤ 0 ∨ (perp ∧ r.law ≠ .linear) then some (.refused .unpriced)
    else
      let st := l.standing (r.pos1e6 slot) sym slot buy exclude perp
      let mag := satAbs st.pos
      if opposes st.pos buy ∧ qty ≤ mag then some { InstProbe.default with exit := true }
      else
        let inc := if opposes st.pos buy then qty - mag else qty
        match r.quote st.pos (moved st.pos qty buy) qty inc buy px with
        | .error why => some (.refused why)
        | .ok q => some (l.priced r slot st q qty buy px perp)

def perpOwner (sym : SymbolId) : Option Nat := (l.inst.perpFind sym).map fun i => (l.inst.rows i).owner

/-- One perp row of the projection: the order's coin at the order's price, before and after; every
other row at its last fill. -/
def perpProjectRow (slot : Nat) (sym : SymbolId) (buy : Bool) (qty px : Int) (k : Nat) (acc : Int × Int) : Int × Int :=
  let coin := l.inst.perpSyms k
  match l.inst.instFind coin with
  | none => acc
  | some i =>
    let r := l.inst.rows i
    if r.owner ≠ slot then acc
    else
      let pos := r.pos1e6 slot
      if coin = sym then
        (satAdd acc.1 (mul1e6 (satAbs pos) px), satAdd acc.2 (mul1e6 (satAbs (moved pos qty buy)) px))
      else
        let e := mul1e6 (satAbs pos) r.lastPx1e6
        (satAdd acc.1 e, satAdd acc.2 e)

def perpProjection1e6 (slot : Nat) (sym : SymbolId) (buy : Bool) (qty px : Int) : Int × Int :=
  if slot ≥ execSlots then (0, 0)
  else loop (l.perpProjectRow slot sym buy qty px) (min l.inst.perpN perpRows) (0, 0)

def perpOpening1e6 (sym : SymbolId) (buy : Bool) (qty px : Int) : Int :=
  match l.inst.perpFind sym with
  | none => 0
  | some i =>
    let r := l.inst.rows i
    if r.owner ≥ execSlots ∨ qty ≤ 0 ∨ px ≤ 0 then 0
    else
      let pos := r.pos1e6 r.owner
      let mag := satAbs pos
      let inc := if opposes pos buy = false then qty else if qty > mag then qty - mag else 0
      mul1e6 inc px

def perpExposureRow (slot k : Nat) (total : Int) : Int :=
  match l.inst.instFind (l.inst.perpSyms k) with
  | none => total
  | some i => if (l.inst.rows i).owner = slot then satAdd total ((l.inst.rows i).exp1e6 slot) else total

def perpExposure1e6 (slot : Nat) : Int :=
  if slot ≥ execSlots then 0 else loop (l.perpExposureRow slot) (min l.inst.perpN perpRows) 0

def unmarkedPositions (slot : Nat) : Nat := if slot ≥ execSlots then 0 else l.inst.unmarked slot

def restingUsd1e6 (slot : Nat) : Int := if slot ≥ execSlots then 0 else l.resting.usd1e6 slot

theorem priced_not_exit (r : InstrumentRow) (slot : Nat) (st : Standing) (q : Quote) (qty : Int)
    (buy : Bool) (px : Int) (perp : Bool) : (l.priced r slot st q qty buy px perp).exit = false := by
  unfold priced
  cases perp <;> rfl

theorem probe_exit_inv {l : Ledger} {sym : SymbolId} {slot : Nat} {qty : Int} {buy : Bool} {px : Int}
    {exclude : Option Nat} {perp : Bool} {p : InstProbe}
    (judged : l.probe sym slot qty buy px exclude perp = some p) (exit : p.exit = true) :
    ∃ i, l.inst.instFind sym = some i ∧ slot < execSlots ∧ 0 < qty ∧
      let st := l.standing ((l.inst.rows i).pos1e6 slot) sym slot buy exclude perp
      opposes st.pos buy = true ∧ qty ≤ satAbs st.pos := by
  unfold probe at judged
  split at judged
  · simp at judged
  rename_i i found
  dsimp only at judged
  split at judged
  · cases judged
    simp [InstProbe.refused, InstProbe.default] at exit
  split at judged
  · cases judged
    simp [InstProbe.refused, InstProbe.default] at exit
  rename_i ready
  split at judged
  · rename_i fits
    exact ⟨i, found, by omega, by omega, fits⟩
  split at judged
  · cases judged
    simp [InstProbe.refused, InstProbe.default] at exit
  · cases judged
    simp [priced_not_exit] at exit

def probePerp (sym : SymbolId) (slot : Nat) (qty : Int) (buy : Bool) (px : Int)
    (exclude : Option Nat) : Option InstProbe := l.probe sym slot qty buy px exclude true

def probeInstrument (sym : SymbolId) (slot : Nat) (qty : Int) (buy : Bool) (px : Int)
    (exclude : Option Nat) : Option InstProbe := l.probe sym slot qty buy px exclude false

end Ledger

end TradingEngine.Router
