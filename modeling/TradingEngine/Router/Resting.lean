import TradingEngine.Router.Instruments

/-!
# The resting table of the risk ledger

One row per order the engine believes is working at a venue.
-/

namespace TradingEngine.Router

open Base CoreTypes Function

def ledgerResting : Nat := 1024

inductive RestingSide where
  | none
  | buy
  | sell
  deriving DecidableEq, Repr

def restingSide (buy : Bool) : RestingSide := if buy then .buy else .sell

/-- A row together with its entries in the parallel price, asked-price, asked-size and asked-id arrays. -/
structure RestingRow where
  clientOid : Nat
  remaining1e6 : Int
  sym : SymbolId
  slot : Nat
  live : Bool
  side : RestingSide
  px1e6 : Int
  pxAsked1e6 : Int
  qtyAsked1e6 : Int
  askedOid : Nat
  deriving DecidableEq, Repr

namespace RestingRow

def free : RestingRow := ⟨0, 0, symbolIdNone, 0, false, .none, 0, 0, 0, 0⟩

variable (r : RestingRow)

def qty : Int := max (max r.remaining1e6 r.qtyAsked1e6) 0

def term : Int := mul1e6 r.qty (max r.px1e6 r.pxAsked1e6)

def unasked : RestingRow := { r with pxAsked1e6 := 0, qtyAsked1e6 := 0, askedOid := 0 }

theorem term_nonneg : 0 ≤ r.term := mul1e6_nonneg _ _

theorem term_le : r.term ≤ instExposureMax := mul1e6_le _ _

end RestingRow

inductive Found where
  | one (i : Nat)
  | none
  | many
  deriving DecidableEq, Repr

structure Resting where
  rows : Nat → RestingRow
  bySlot : Nat → Nat
  usd1e6 : Nat → Int
  hi : Nat
  full : Nat
  ambiguous : Nat
  unmatched : Nat

namespace Resting

def new : Resting where
  rows := fun _ => .free
  bySlot := fun _ => 0
  usd1e6 := fun _ => 0
  hi := 0
  full := 0
  ambiguous := 0
  unmatched := 0

variable (t : Resting)

def setRow (i : Nat) (r : RestingRow) : Resting :=
  { t with rows := update t.rows i r }

/-- `resting_reterm`: replace the old term of row `i` by its current one. -/
def reterm (i : Nat) (old : Int) : Resting :=
  let slot := (t.rows i).slot % execSlots
  { t with usd1e6 := update t.usd1e6 slot (satAdd (satSub (t.usd1e6 slot) old) (t.rows i).term) }

/-- Rewrite row `i` and carry the change of its term into the slot's dollars. -/
def rewrite (i : Nat) (r : RestingRow) : Resting := (t.setRow i r).reterm i (t.rows i).term

def occupy (i : Nat) (r : RestingRow) : Resting :=
  { t.setRow i r with hi := max t.hi (i + 1) }

def release (i : Nat) : Resting :=
  let r := t.rows i
  let freed := t.setRow i .free
  let paid :=
    if r.slot < execSlots then
      { freed with
        bySlot := update freed.bySlot r.slot (freed.bySlot r.slot - 1)
        usd1e6 := update freed.usd1e6 r.slot (satSub (freed.usd1e6 r.slot) r.term) }
    else freed
  if i + 1 = paid.hi then { paid with hi := trim (fun j => (paid.rows j).live) i } else paid

/-- One row of the scan for a client id: how many rows match, and the first of them. -/
def locateRow (clientOid slot i : Nat) (acc : Nat × Nat) : Nat × Nat :=
  let r := t.rows i
  if r.live ∧ r.clientOid = clientOid ∧ r.slot = slot then
    (acc.1 + 1, if acc.2 = ledgerResting then i else acc.2)
  else acc

/-- `locate` over the rows below `bound`. -/
def locateBelow (bound clientOid slot : Nat) : Found :=
  if slot ≥ execSlots then .none
  else
    let acc := loop (t.locateRow clientOid slot) bound (0, ledgerResting)
    if acc.1 > 1 then .many else if acc.1 = 0 then .none else .one acc.2

def locate (clientOid slot : Nat) : Found := t.locateBelow t.hi clientOid slot

def find (clientOid slot : Nat) : Resting × Found :=
  match t.locate clientOid slot with
  | .many => ({ t with ambiguous := bump u64Max t.ambiguous }, .many)
  | found => (t, found)

/-- What `working_on` sums: remaining sizes, sizes with queued modifies, and the excluded rows seen. -/
structure Worked where
  total : Int
  held : Int
  hits : Nat
  hit : Nat
  deriving DecidableEq, Repr

def workRow (slot : Nat) (sym : SymbolId) (buy : Bool) (exclude : Option Nat) (i : Nat) (acc : Worked) : Worked :=
  let r := t.rows i
  if r.live ∧ r.slot = slot then
    if exclude = some r.clientOid then { acc with hits := acc.hits + 1, hit := i }
    else if r.sym = sym ∧ r.side = restingSide buy then
      { acc with total := satAdd acc.total (max r.remaining1e6 0), held := satAdd acc.held r.qty }
    else acc
  else acc

/-- `working_on` over the rows below `bound`: the remaining and the held size of the slot's working
orders on one side of a symbol without the excluded one, and the dollars of the excluded one. -/
def workingOnBelow (bound slot : Nat) (sym : SymbolId) (buy : Bool) (exclude : Option Nat) : Int × Int × Int :=
  let acc := loop (t.workRow slot sym buy exclude) bound ⟨0, 0, 0, ledgerResting⟩
  (acc.total, acc.held, if acc.hits = 1 then (t.rows acc.hit).term else 0)

def workingOn (slot : Nat) (sym : SymbolId) (buy : Bool) (exclude : Option Nat) : Int × Int × Int :=
  t.workingOnBelow t.hi slot sym buy exclude

def dropRow (yes no : SymbolId) (i : Nat) (t : Resting) : Resting :=
  if (t.rows i).live = false ∨ ((t.rows i).sym ≠ yes ∧ (t.rows i).sym ≠ no) then t else t.release i

def dropRestingOn (yes no : SymbolId) : Resting := loop (dropRow yes no) t.hi t

def consumeResting (clientOid slot : Nat) (qty : Int) : Resting :=
  match t.find clientOid slot with
  | (t, .none) => { t with unmatched := bump u64Max t.unmatched }
  | (t, .many) => t
  | (t, .one i) =>
    let rem := satSub (t.rows i).remaining1e6 qty
    if rem ≤ 0 then t.release i else t.rewrite i { t.rows i with remaining1e6 := rem }

/-- The first free row of the whole table. -/
def firstFree : Option Nat := firstBelow (fun i => !(t.rows i).live) ledgerResting

def onSubmit (clientOid slot : Nat) (sym : SymbolId) (qty : Int) (buy : Bool) (px : Int) : Resting :=
  if slot ≥ execSlots then t
  else
    match t.firstFree with
    | none =>
      { t with
        full := bump u64Max t.full
        bySlot := update t.bySlot slot (bump u32Max (t.bySlot slot))
        usd1e6 := update t.usd1e6 slot (satAdd (t.usd1e6 slot) (mul1e6 qty px)) }
    | some i =>
      let t := (t.occupy i ⟨clientOid, qty, sym, slot, true, restingSide buy, px, 0, 0, 0⟩).reterm i 0
      { t with bySlot := update t.bySlot slot (bump u32Max (t.bySlot slot)) }

def clearRow (slot i : Nat) (t : Resting) : Resting :=
  if (t.rows i).live ∧ (t.rows i).slot = slot then t.release i else t

def clearRestingSlot (slot : Nat) : Resting :=
  if slot ≥ execSlots then t
  else
    let t := loop (clearRow slot) t.hi t
    { t with bySlot := update t.bySlot slot 0, usd1e6 := update t.usd1e6 slot 0 }

def onCancel (clientOid slot : Nat) : Resting :=
  match t.find clientOid slot with
  | (t, .one i) => t.release i
  | (t, _) => t

def onRetired (clientOid slot : Nat) : Resting :=
  match t.find clientOid slot with
  | (t, .one i) => t.release i
  | (t, .many) => t
  | (t, .none) =>
    if clientOid = 0 then t
    else
      match firstBelow (fun i => (t.rows i).askedOid = clientOid ∧ (t.rows i).live ∧ (t.rows i).slot = slot) t.hi with
      | none => t
      | some i => t.rewrite i (t.rows i).unasked

def onModify (prevClientOid clientOid slot : Nat) (sym : SymbolId) (qty : Int) (buy : Bool) (px : Int) : Resting :=
  match t.find prevClientOid slot with
  | (t, .one i) =>
    let r := t.rows i
    let px := if px > 0 then px else if r.pxAsked1e6 > 0 then r.pxAsked1e6 else r.px1e6
    t.rewrite i
      { r.unasked with
        clientOid := clientOid
        remaining1e6 := qty
        sym := sym
        side := restingSide buy
        px1e6 := px }
  | (t, .none) => t.onSubmit clientOid slot sym qty buy px
  | (t, .many) => t

def onModifyAsked (prevClientOid clientOid slot : Nat) (qty px : Int) : Resting :=
  match t.locate prevClientOid slot with
  | .one i => t.rewrite i { t.rows i with qtyAsked1e6 := qty, pxAsked1e6 := px, askedOid := clientOid }
  | _ => t

end Resting

end TradingEngine.Router
