import TradingEngine.Base.Search
import TradingEngine.Core.Types

/-!
# The instrument table of the risk ledger

Dated and perpetual instruments, keyed by symbol: the position of every slot, the price context it is valued in, and
the per-slot exposure that is kept up to date as they change.
-/

namespace TradingEngine.Router

open Base CoreTypes Function

def execSlots : Nat := 16

def ledgerInstruments : Nat := 256

def perpRows : Nat := 8

def ownerNone : Nat := 255

def instExposureMax : Int := 9007199254740991

def markIndexMaxDev1e6 : Int := 100000

def markStaleNs : Nat := 30000000000

/-- `none` is a free row's law, and any byte outside the four. -/
inductive Law where
  | none
  | spot
  | linear
  | inverse
  | option
  deriving DecidableEq, Repr

def instWritable : BitVec 8 := 0x01

def instCall : BitVec 8 := 0x02

def instSeeded : BitVec 8 := 0x20

def instPerp : BitVec 8 := 0x40

def instStale : BitVec 8 := 0x80

def mul1e6 (a b : Int) : Int :=
  let p := (a * b).tdiv 1000000
  if p ≤ 0 then 0 else if p ≥ instExposureMax then instExposureMax else p

def shortImPerContract (index strike mark unit : Int) (call : Bool) : Int :=
  let otm := if call then strike - index else index - strike
  let otm := if otm > 0 then otm else 0
  let floor := index.tdiv 10
  let rate := (3 * index).tdiv 20 - otm
  let perUnit := if rate > floor then rate else floor
  let perUnit := if perUnit > 0 then perUnit else 0
  let m := if mark > 0 then mark else 0
  let v := (perUnit * unit).tdiv 1000000 + m
  if v ≥ instExposureMax then instExposureMax else i64Wrap v

def optionMarkSane (mark index strike unit : Int) (call : Bool) : Bool :=
  if mark ≤ 0 ∨ index ≤ 0 ∨ unit ≤ 0 then false
  else
    let band := optionMarkBand index strike unit call
    mark ≥ band.1 ∧ mark ≤ band.2

structure InstrumentRow where
  sym : SymbolId
  law : Law
  flags : BitVec 8
  unit1e6 : Int
  strike1e6 : Int
  mark1e6 : Int
  index1e6 : Int
  lastPx1e6 : Int
  markNs : Nat
  unmarked : Nat → Bool
  owner : Nat
  pos1e6 : Nat → Int
  exp1e6 : Nat → Int

namespace InstrumentRow

def free : InstrumentRow where
  sym := symbolIdNone
  law := .none
  flags := 0
  unit1e6 := 0
  strike1e6 := 0
  mark1e6 := 0
  index1e6 := 0
  lastPx1e6 := 0
  markNs := 0
  unmarked := fun _ => false
  owner := ownerNone
  pos1e6 := fun _ => 0
  exp1e6 := fun _ => 0

variable (r : InstrumentRow)

def has (flag : BitVec 8) : Bool := r.flags &&& flag ≠ 0

/-- The mark once there is one, the last fill before that. -/
def pxCtx : Int := if r.mark1e6 > 0 then r.mark1e6 else r.lastPx1e6

def capPrice (px : Int) : Int := if px ≥ r.pxCtx then px else r.pxCtx

def onePrice (buy : Bool) (px : Int) : Int :=
  if buy || r.has instPerp then px else r.capPrice px

def marginIndex : Int := if r.index1e6 > 0 then r.index1e6 else r.strike1e6

def exposureCtx (pos : Int) : Int :=
  let mag := satAbs pos
  match r.law with
  | .spot | .linear => mul1e6 mag r.pxCtx
  | .inverse => mul1e6 mag r.unit1e6
  | .option =>
    if pos ≥ 0 then mul1e6 mag r.pxCtx
    else mul1e6 mag (shortImPerContract r.marginIndex r.strike1e6 r.pxCtx r.unit1e6 (r.has instCall))
  | .none => 0

def bare : Bool := decide (r.law = .linear) && decide (r.mark1e6 ≤ 0) && !r.has instPerp

/-- What an option summary does to a row: the row, whether its prices moved, whether its mark was refused. -/
structure Summarized where
  row : InstrumentRow
  moved : Bool
  refused : Bool

/-- An option's index and mark arrive together; the mark must lie in its no-arbitrage band. -/
def afterSummary (summary : OptSummary) : Summarized :=
  let indexed := decide (summary.underlyingPx1e9 > 0)
  let r := if indexed then { r with index1e6 := summary.underlyingPx1e9.tdiv 1000 } else r
  if summary.markPxGiven then
    let mark := summary.markPx1e9.tdiv 1000
    if optionMarkSane mark r.index1e6 r.strike1e6 r.unit1e6 (r.has instCall) then
      ⟨{ r with mark1e6 := mark, markNs := summary.tsNs, flags := r.flags &&& ~~~instStale }, true, false⟩
    else ⟨r, indexed, true⟩
  else ⟨r, indexed, false⟩

end InstrumentRow

structure InstrumentSpec where
  sym : SymbolId
  law : Law
  flags : BitVec 8
  owner : Nat
  unit1e6 : Int
  strike1e6 : Int
  deriving DecidableEq, Repr

inductive InstrumentBindErr where
  | full
  | duplicate
  | badSpec
  deriving DecidableEq, Repr

inductive LedgerError where
  | bind (err : InstrumentBindErr)
  | perpRowsFull
  | notPerp
  | seededTwice
  | badSeed
  deriving DecidableEq, Repr

def InstrumentSpec.bad (spec : InstrumentSpec) : Bool :=
  let option := spec.law = .option
  spec.sym = symbolIdNone ∨ spec.law = .none
    ∨ ((spec.law = .inverse ∨ option) ∧ spec.unit1e6 ≤ 0)
    ∨ (option ∧ spec.strike1e6 ≤ 0)
    ∨ (option ∧ spec.flags &&& ~~~(instWritable ||| instCall) ≠ 0)
    ∨ (¬ option ∧ (spec.flags ≠ 0 ∨ spec.strike1e6 ≠ 0))
    ∨ (spec.owner ≠ ownerNone ∧ spec.owner ≥ execSlots)

def InstrumentSpec.row (spec : InstrumentSpec) : InstrumentRow :=
  { InstrumentRow.free with
    sym := spec.sym
    law := spec.law
    flags := spec.flags ||| (if spec.law = .option then instStale else 0)
    unit1e6 := spec.unit1e6
    strike1e6 := spec.strike1e6
    owner := spec.owner }

/-- The instrument table with its per-slot aggregates, the perp list and the two mark counters.
`wrapped` records that unchecked arithmetic on an aggregate has left its word. -/
structure Instruments where
  keys : Nat → SymbolId
  rows : Nat → InstrumentRow
  n : Nat
  exposure1e6 : Nat → Int
  unmarked : Nat → Nat
  perpSyms : Nat → SymbolId
  perpN : Nat
  marksRefused : Nat
  marksExpired : Nat
  wrapped : Bool

namespace Instruments

def new : Instruments where
  keys := fun _ => symbolIdNone
  rows := fun _ => .free
  n := 0
  exposure1e6 := fun _ => 0
  unmarked := fun _ => 0
  perpSyms := fun _ => symbolIdNone
  perpN := 0
  marksRefused := 0
  marksExpired := 0
  wrapped := false

variable (t : Instruments)

def setRow (i : Nat) (r : InstrumentRow) : Instruments :=
  { t with rows := update t.rows i r }

def instFind (sym : SymbolId) : Option Nat :=
  if t.n = 0 ∨ sym = symbolIdNone then none
  else
    let i := descend t.keys sym ledgerInstruments 0 ledgerInstruments % ledgerInstruments
    if t.keys i = sym then some i else none

def insertRow (spec : InstrumentSpec) : Instruments :=
  let shifted := shiftUp spec.sym t.n t.keys t.rows
  { t with
    keys := update shifted.2.1 shifted.1 spec.sym
    rows := update shifted.2.2 shifted.1 spec.row
    n := t.n + 1 }

def bindInstrument (spec : InstrumentSpec) : Instruments × Except InstrumentBindErr Unit :=
  if spec.bad then (t, .error .badSpec)
  else if (t.instFind spec.sym).isSome then (t, .error .duplicate)
  else if t.n ≥ ledgerInstruments then (t, .error .full)
  else (t.insertRow spec, .ok ())

def bindPerp (sym : SymbolId) (slot : Nat) : Instruments × Except LedgerError Unit :=
  if slot ≥ execSlots then (t, .error (.bind .badSpec))
  else if t.perpN ≥ perpRows then (t, .error .perpRowsFull)
  else
    match t.bindInstrument ⟨sym, .linear, 0, slot, 0, 0⟩ with
    | (t, .error err) => (t, .error (.bind err))
    | (t, .ok ()) =>
      match t.instFind sym with
      | none => (t, .error .notPerp)
      | some i =>
        let t := t.setRow i { t.rows i with flags := (t.rows i).flags ||| instPerp }
        ({ t with perpSyms := update t.perpSyms t.perpN sym, perpN := t.perpN + 1 }, .ok ())

def perpFind (sym : SymbolId) : Option Nat :=
  if t.perpN = 0 then none
  else
    match t.instFind sym with
    | none => none
    | some i => if (t.rows i).has instPerp then some i else none

def isPerp (sym : SymbolId) : Bool := (t.perpFind sym).isSome

/-- Replace what slot `s` of a row counts in the slot's exposure. -/
def moveExposure (s : Nat) (old new : Int) : Instruments :=
  let rest := t.exposure1e6 s - old
  { t with
    exposure1e6 := update t.exposure1e6 s (i64Wrap (i64Wrap rest + new))
    wrapped := t.wrapped || !decide (InI64 rest) || !decide (InI64 (i64Wrap rest + new)) }

def countUnmarked (s : Nat) (unmarked : Bool) : Instruments :=
  let n := t.unmarked s
  { t with
    unmarked := update t.unmarked s (if unmarked then (n + 1) % u16Size else (n + (u16Size - 1)) % u16Size)
    wrapped := t.wrapped || (if unmarked then decide (n + 1 ≥ u16Size) else decide (n = 0)) }

/-- Value slot `s` of row `i` in the row's price context, and flag a position without a mark. -/
def revalueSlot (bare : Bool) (i s : Nat) : Instruments :=
  let r := t.rows i
  let e := r.exposureCtx (r.pos1e6 s)
  (t.moveExposure s (r.exp1e6 s) e).setRow i
    { r with
      exp1e6 := update r.exp1e6 s e
      unmarked := update r.unmarked s (bare && decide (r.pos1e6 s ≠ 0)) }

/-- Bring slot `s` of row `i` up to date. A flat slot that counts nothing is skipped. -/
def refreshSlot (bare : Bool) (i s : Nat) (t : Instruments) : Instruments :=
  let r := t.rows i
  let unmarked := bare && decide (r.pos1e6 s ≠ 0)
  if r.pos1e6 s = 0 ∧ r.exp1e6 s = 0 ∧ r.unmarked s = false then t
  else if unmarked = r.unmarked s then t.revalueSlot bare i s
  else (t.revalueSlot bare i s).countUnmarked s unmarked

def refreshInstrument (i : Nat) : Instruments :=
  loop (refreshSlot (t.rows i).bare i) execSlots t

def onMark (sym : SymbolId) (mark index : Int) (tsNs : Nat) : Instruments :=
  match t.instFind sym with
  | none => t
  | some i =>
    if (t.rows i).law = .option ∨ (t.rows i).has instPerp then t
    else if mark ≤ 0 ∨ index ≤ 0 ∨ |mark - index| * 1000000 > markIndexMaxDev1e6 * index then
      { t with marksRefused := bump u64Max t.marksRefused }
    else (t.setRow i { t.rows i with mark1e6 := mark, markNs := tsNs }).refreshInstrument i

def expireMark (nowNs i : Nat) (t : Instruments) : Instruments :=
  let r := t.rows i
  let old := nowNs - r.markNs > markStaleNs
  if r.law = .option then
    if r.has instStale = false ∧ old then
      { t.setRow i { r with flags := r.flags ||| instStale } with
        marksExpired := bump u64Max t.marksExpired }
    else t
  else if r.mark1e6 > 0 ∧ old then
    { t.setRow i { r with mark1e6 := 0 } with
      marksExpired := bump u64Max t.marksExpired }.refreshInstrument i
  else t

def expireMarks (nowNs : Nat) : Instruments := loop (expireMark nowNs) t.n t

def onOptSummary (summary : OptSummary) : Instruments :=
  match t.instFind summary.sym with
  | none => t
  | some i =>
    if (t.rows i).law ≠ .option then t
    else
      let out := (t.rows i).afterSummary summary
      let t := t.setRow i out.row
      let t := if out.refused then { t with marksRefused := bump u64Max t.marksRefused } else t
      if out.moved then t.refreshInstrument i else t

end Instruments

theorem mul1e6_nonneg (a b : Int) : 0 ≤ mul1e6 a b := by
  simp only [mul1e6, instExposureMax]; grind

theorem mul1e6_le (a b : Int) : mul1e6 a b ≤ instExposureMax := by
  simp only [mul1e6, instExposureMax]; grind

end TradingEngine.Router
