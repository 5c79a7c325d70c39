import TradingEngine.Router.Resting

/-!
# Family rows of the risk ledger

A binary family has one live instance at a time: an outcome with a YES and a NO leg.
-/

namespace TradingEngine.Router

open Base CoreTypes

def ledgerRows : Nat := 64

def familyNone : Nat := 255

structure FamilyRow where
  symYes : SymbolId
  symNo : SymbolId
  outcome : Nat
  family : Nat
  venue : Nat
  settled : Bool
  posYes1e6 : Nat → Int
  posNo1e6 : Nat → Int

namespace FamilyRow

def free : FamilyRow where
  symYes := symbolIdNone
  symNo := symbolIdNone
  outcome := 0
  family := familyNone
  venue := 0
  settled := false
  posYes1e6 := fun _ => 0
  posNo1e6 := fun _ => 0

variable (r : FamilyRow)

def isBound : Bool := r.family ≠ familyNone

def holds (sym : SymbolId) : Bool := r.isBound && (sym = r.symYes || sym = r.symNo)

def exposure (slot : Nat) : Int := netExposure1e8 (r.posYes1e6 slot) (r.posNo1e6 slot)

end FamilyRow

def apply (leg qty : Int) (buy : Bool) : Int × Bool :=
  if buy then (satAdd leg qty, false)
  else
    let v := satSub leg qty
    if v < 0 then (0, true) else (v, false)

abbrev FamilyRows := Nat → FamilyRow

namespace FamilyRows

variable (rows : FamilyRows)

def exposureRow (slot i : Nat) (total : Int) : Int :=
  let r := rows i
  if r.isBound then satAdd total (r.exposure slot) else total

def familyExposure1e6 (slot : Nat) : Int :=
  if slot ≥ execSlots then 0 else loop (exposureRow rows slot) ledgerRows 0

/-- One row of the projected sum: the legs as they would stand after the fill. -/
def projectRow (slot : Nat) (sym : SymbolId) (qty : Int) (buy : Bool) (i : Nat) (acc : Int × Bool) : Int × Bool :=
  let r := rows i
  if r.isBound then
    let yes := r.posYes1e6 slot
    let no := r.posNo1e6 slot
    if sym = r.symYes then (satAdd acc.1 (netExposure1e8 (apply yes qty buy).1 no), true)
    else if sym = r.symNo then (satAdd acc.1 (netExposure1e8 yes (apply no qty buy).1), true)
    else (satAdd acc.1 (netExposure1e8 yes no), acc.2)
  else acc

/-- The projected family exposure; a buy of an unbound symbol counts in full. -/
def projectedFamily1e6 (slot : Nat) (sym : SymbolId) (qty : Int) (buy : Bool) : Int :=
  let acc := loop (projectRow rows slot sym qty buy) ledgerRows (0, false)
  if !acc.2 && buy then satAdd acc.1 qty else acc.1

/-- The row a symbol's fills are booked on: the first that holds it. -/
def legRow (sym : SymbolId) : Option Nat := firstBelow (fun i => (rows i).holds sym) ledgerRows

def heldOnSym1e6 (slot : Nat) (sym : SymbolId) : Int :=
  if slot ≥ execSlots then 0
  else
    match rows.legRow sym with
    | none => 0
    | some i => if sym = (rows i).symYes then (rows i).posYes1e6 slot else (rows i).posNo1e6 slot

def position1e6 (slot outcome : Nat) : Option (Int × Int) :=
  if slot ≥ execSlots then none
  else
    match firstBelow (fun i => (rows i).isBound ∧ (rows i).outcome = outcome) ledgerRows with
    | none => none
    | some i => some ((rows i).posYes1e6 slot, (rows i).posNo1e6 slot)

/-- What booking a fill on a row did: whether the sell went below zero, and whether the row was settled. -/
structure Booked where
  belowZero : Bool
  onSettledRow : Bool
  deriving DecidableEq, Repr

/-- Book a fill on the first bound row that holds the leg. -/
def bookLeg (slot : Nat) (sym : SymbolId) (qty : Int) (buy : Bool) : FamilyRows × Option Booked :=
  match rows.legRow sym with
  | none => (rows, none)
  | some i =>
    let r := rows i
    if sym = r.symYes then
      let next := apply (r.posYes1e6 slot) qty buy
      (Function.update rows i { r with posYes1e6 := Function.update r.posYes1e6 slot next.1 },
        some ⟨next.2, r.settled⟩)
    else
      let next := apply (r.posNo1e6 slot) qty buy
      (Function.update rows i { r with posNo1e6 := Function.update r.posNo1e6 slot next.1 },
        some ⟨next.2, r.settled⟩)

def familyRow (venue family : Nat) : Option Nat :=
  firstBelow (fun i => (rows i).isBound ∧ (rows i).family = family ∧ (rows i).venue = venue) ledgerRows

def freeRow : Option Nat := firstBelow (fun i => !(rows i).isBound) ledgerRows

def outcomeRow (venue outcome : Nat) : Option Nat :=
  firstBelow (fun i => (rows i).isBound ∧ (rows i).outcome = outcome ∧ (rows i).venue = venue) ledgerRows

end FamilyRows

end TradingEngine.Router
