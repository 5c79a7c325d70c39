import TradingEngine.Router.InstrumentAccounts
import TradingEngine.Router.Probe
import TradingEngine.Router.RestingRuns

/-!
# An exit is really an exit

The probe calls an order an exit when it fits in what the slot's other working orders on its side would leave of the
position.
-/

namespace TradingEngine.Router

open Base CoreTypes Finset RestingRow

namespace RestingRow

/-- A working order of the slot on one side of a symbol, other than the excluded one. -/
def worksOn (r : RestingRow) (slot : Nat) (sym : SymbolId) (buy : Bool) (exclude : Option Nat) : Bool :=
  r.live ∧ r.slot = slot ∧ exclude ≠ some r.clientOid ∧ r.sym = sym ∧ r.side = restingSide buy

/-- The size an order may still fill; on a perp, that of a queued modify if it is larger. -/
def workSize (perp : Bool) (r : RestingRow) : Int := if perp then r.qty else max r.remaining1e6 0

/-- What the row adds to the slot's work on a symbol's side. -/
def workOn (slot : Nat) (sym : SymbolId) (buy : Bool) (exclude : Option Nat) (perp : Bool) (r : RestingRow) : Int :=
  if r.worksOn slot sym buy exclude then r.workSize perp else 0

variable (perp : Bool) (r : RestingRow)

theorem workSize_nonneg : 0 ≤ r.workSize perp := by
  unfold workSize qty
  split <;> omega

theorem workSize_le_qty : r.workSize false ≤ r.workSize perp := by
  cases perp with
  | false => exact Int.le_refl _
  | true =>
    simp only [workSize, qty, Bool.false_eq_true, if_false, if_true]
    omega

theorem workOn_nonneg (slot : Nat) (sym : SymbolId) (buy : Bool) (exclude : Option Nat) (perp : Bool)
    (r : RestingRow) : 0 ≤ r.workOn slot sym buy exclude perp := by
  unfold workOn
  split
  · exact r.workSize_nonneg perp
  · exact Int.le_refl 0

end RestingRow

namespace Resting

variable {t : Resting} {missed : Nat → Nat} {slot : Nat} {sym : SymbolId} {buy : Bool} {exclude : Option Nat}

def workSum (t : Resting) (slot : Nat) (sym : SymbolId) (buy : Bool) (exclude : Option Nat) (perp : Bool) : Int :=
  ∑ i ∈ range ledgerResting, (t.rows i).workOn slot sym buy exclude perp

theorem workSum_nonneg (t : Resting) (perp : Bool) : 0 ≤ t.workSum slot sym buy exclude perp :=
  sum_nonneg fun i _ => (t.rows i).workOn_nonneg slot sym buy exclude perp

theorem workSum_le (t : Resting) (perp : Bool) :
    t.workSum slot sym buy exclude false ≤ t.workSum slot sym buy exclude perp := by
  refine sum_le_sum fun i _ => ?_
  unfold workOn
  split
  · exact (t.rows i).workSize_le_qty perp
  · exact Int.le_refl 0

theorem workRow_sums {i : Nat} {acc : Worked} {total held : Int} (start : 0 ≤ total) (start' : 0 ≤ held)
    (sums : acc.total = min total i64Max ∧ acc.held = min held i64Max) :
    let acc' := t.workRow slot sym buy exclude i acc
    acc'.total = min (total + (t.rows i).workOn slot sym buy exclude false) i64Max ∧
      acc'.held = min (held + (t.rows i).workOn slot sym buy exclude true) i64Max := by
  have skip : (t.rows i).worksOn slot sym buy exclude = false →
      min (total + (t.rows i).workOn slot sym buy exclude false) i64Max = acc.total ∧
      min (held + (t.rows i).workOn slot sym buy exclude true) i64Max = acc.held := by
    intro other
    simp [workOn, other, sums]
  unfold workRow
  dsimp only
  split
  · rename_i mine
    split
    · rename_i excluded
      obtain ⟨total, held⟩ := skip (by simp [worksOn, excluded])
      exact ⟨total.symm, held.symm⟩
    rename_i included
    split
    · rename_i same
      have works : (t.rows i).worksOn slot sym buy exclude = true := by simp [worksOn, mine, included, same]
      simp only [workOn, works, if_true, sums]
      exact ⟨min_satAdd start ((t.rows i).workSize_nonneg false), min_satAdd start' ((t.rows i).workSize_nonneg true)⟩
    · rename_i other
      obtain ⟨total, held⟩ := skip (by
        simp only [worksOn, decide_eq_false_iff_not]
        exact fun works => other works.2.2.2)
      exact ⟨total.symm, held.symm⟩
  · rename_i other
    obtain ⟨total, held⟩ := skip (by
      simp only [worksOn, decide_eq_false_iff_not]
      exact fun works => other ⟨works.1, works.2.1⟩)
    exact ⟨total.symm, held.symm⟩

theorem Accounted.workingOn_sums (h : Accounted t missed) :
    (t.workingOn slot sym buy exclude).1 = min (t.workSum slot sym buy exclude false) i64Max ∧
      (t.workingOn slot sym buy exclude).2.1 = min (t.workSum slot sym buy exclude true) i64Max := by
  rw [h.workingOn_full]
  refine loop_invariant (f := t.workRow slot sym buy exclude) (n := ledgerResting) (s := ⟨0, 0, 0, ledgerResting⟩)
    (P := fun n acc =>
      acc.total = min (∑ i ∈ range n, (t.rows i).workOn slot sym buy exclude false) i64Max ∧
      acc.held = min (∑ i ∈ range n, (t.rows i).workOn slot sym buy exclude true) i64Max)
    ⟨rfl, rfl⟩ fun n acc _ sums => ?_
  rw [sum_range_succ, sum_range_succ]
  exact workRow_sums (sum_nonneg fun i _ => workOn_nonneg ..)
    (sum_nonneg fun i _ => workOn_nonneg ..) sums

theorem onSubmit_workSum {oid i : Nat} {qty px : Int} (known : slot < execSlots) (free : t.firstFree = some i)
    (pos : 0 < qty) :
    (t.onSubmit oid slot sym qty buy px).workSum slot sym buy none false = t.workSum slot sym buy none false + qty := by
  obtain ⟨lt, dead, _⟩ := firstBelow_some free
  let r : RestingRow := ⟨oid, qty, sym, slot, true, restingSide buy, px, 0, 0, 0⟩
  have rows : (t.onSubmit oid slot sym qty buy px).rows = Function.update t.rows i r := by
    unfold onSubmit
    rw [if_neg (Nat.not_le.mpr known), free]
    rfl
  have own : r.workOn slot sym buy none false = qty := by
    simp [workOn, worksOn, workSize, r]
    omega
  have old : (t.rows i).workOn slot sym buy none false = 0 := by
    simp only [Bool.not_eq_true'] at dead
    simp [workOn, worksOn, dead]
  unfold workSum
  rw [rows, sum_range_update lt t.rows r (workOn slot sym buy none false), own, old, sub_zero]

end Resting

namespace Ledger

variable {l : Ledger} {sym : SymbolId} {slot : Nat} {buy : Bool}

def instrumentPosition1e6 (l : Ledger) (slot : Nat) (sym : SymbolId) : Option Int :=
  if slot ≥ execSlots then none else (l.inst.instFind sym).map fun i => (l.inst.rows i).pos1e6 slot

def positionOn (l : Ledger) (slot : Nat) (sym : SymbolId) : Int := (l.instrumentPosition1e6 slot sym).getD 0

theorem positionOn_eq {i : Nat} (known : slot < execSlots) (found : l.inst.instFind sym = some i) :
    l.positionOn slot sym = (l.inst.rows i).pos1e6 slot := by
  simp [positionOn, instrumentPosition1e6, found, Nat.not_le.mpr known]

theorem exit_fits {filled work qty : Int} (nonneg : 0 ≤ work) (fits : |filled| ≤ i64Max)
    (exit : let against := opposes filled buy
      let pos := if against then moved filled (min work i64Max) buy else filled
      opposes pos buy = true ∧ qty ≤ satAbs pos) :
    opposes filled buy = true ∧ qty + work ≤ |filled| := by
  obtain ⟨le, ge⟩ := abs_le.mp fits
  cases against : opposes filled buy with
  | false => simp [against] at exit
  | true =>
    simp only [against, if_true] at exit
    refine ⟨rfl, ?_⟩
    have size := exit.2.trans (satAbs_le _)
    obtain ⟨still, _⟩ := exit
    cases buy with
    | false =>
      simp only [opposes, decide_eq_true_eq, Bool.false_eq_true, and_true, and_false, or_false] at against still
      simp only [moved, Bool.false_eq_true, if_false] at still size
      rw [abs_of_pos still] at size
      rw [abs_of_pos against]
      simp only [satSub, i64Clamp, i64Min, i64Max] at *
      omega
    | true =>
      simp only [opposes, decide_eq_true_eq, Bool.true_eq_false, and_false, and_true, false_or] at against still
      simp only [moved, if_true] at still size
      rw [abs_of_neg still] at size
      rw [abs_of_neg against]
      simp only [satAdd, i64Clamp, i64Min, i64Max] at *
      omega

theorem probe_exit {missed : Nat → Nat} (h : l.resting.Accounted missed) {qty px : Int} {exclude : Option Nat}
    {perp : Bool} {p : InstProbe} (judged : l.probe sym slot qty buy px exclude perp = some p)
    (exit : p.exit = true) (fits : |l.positionOn slot sym| ≤ i64Max) :
    ∃ i, l.inst.instFind sym = some i ∧ slot < execSlots ∧ 0 < qty ∧ opposes (l.positionOn slot sym) buy = true ∧
      qty + l.resting.workSum slot sym buy exclude perp ≤ |l.positionOn slot sym| := by
  obtain ⟨i, found, known, pos, meets⟩ := probe_exit_inv judged exit
  rw [positionOn_eq known found] at fits ⊢
  refine ⟨i, found, known, pos, exit_fits (l.resting.workSum_nonneg perp) fits ?_⟩
  -- the work is only read when the order is against the position
  dsimp only [standing] at meets ⊢
  cases against : opposes ((l.inst.rows i).pos1e6 slot) buy with
  | false => simp [against] at meets
  | true =>
    have sums : (l.resting.workingOn slot sym buy exclude).1 = _ ∧
        (l.resting.workingOn slot sym buy exclude).2.1 = _ := h.workingOn_sums
    cases perp with
    | false => simpa [against, sums.1] using meets
    | true => simpa [against, sums.2] using meets

theorem instFind_congr {t t' : Instruments} (keys : t'.keys = t.keys) (n : t'.n = t.n) (sym : SymbolId) :
    t'.instFind sym = t.instFind sym := by
  unfold Instruments.instFind
  rw [keys, n]

theorem bookFill_found {fill : Fill} {i : Nat} (venue : fill.origin = .venue) (known : fill.strategyId < execSlots)
    (found : l.inst.instFind fill.sym = some i) :
    l.bookFill fill = { l with day := l.day.rollDay fill.tsNs }.bookInstrumentFill i fill fill.strategyId := by
  unfold bookFill
  rw [if_neg (by simp [venue])]
  dsimp only
  rw [if_neg (by omega), found]

def traded (r : InstrumentRow) (fill : Fill) : InstrumentRow :=
  { r with
    pos1e6 := Function.update r.pos1e6 fill.strategyId (r.nextPos fill.strategyId fill.qty fill.buy).1
    lastPx1e6 := if fill.px > 0 then fill.px else r.lastPx1e6 }

theorem bookFill_inst {fill : Fill} {i : Nat} (venue : fill.origin = .venue) (known : fill.strategyId < execSlots)
    (found : l.inst.instFind fill.sym = some i) (trade : fill.settlement = false) :
    (l.bookFill fill).inst = (l.inst.setRow i (traded (l.inst.rows i) fill)).refreshInstrument i := by
  rw [bookFill_found venue known found]
  unfold bookInstrumentFill
  simp only [trade, Bool.false_eq_true, if_false]
  rfl

theorem bookFill_position {fill : Fill} {i : Nat} (venue : fill.origin = .venue) (known : fill.strategyId < execSlots)
    (found : l.inst.instFind fill.sym = some i) (trade : fill.settlement = false) :
    (l.bookFill fill).inst.instFind fill.sym = some i ∧ ((l.bookFill fill).inst.rows i).pos1e6 fill.strategyId =
        ((l.inst.rows i).nextPos fill.strategyId fill.qty fill.buy).1 := by
  have kept := (l.inst.setRow i (traded (l.inst.rows i) fill)).refreshInstrument_refreshed i
  rw [bookFill_inst venue known found trade]
  refine ⟨(instFind_congr (kept.keys.trans rfl) (kept.n.trans rfl) _).trans found, ?_⟩
  rw [InstrumentRow.pos_congr (kept.book i)]
  change (Function.update l.inst.rows i (traded _ fill) i).pos1e6 fill.strategyId = _
  rw [Function.update_self]
  exact Function.update_self ..

/-- One step towards zero: the sign stays and the magnitude does not grow. -/
def TowardZero (a b : Int) : Prop := (0 ≤ b ∧ b ≤ a) ∨ (a ≤ b ∧ b ≤ 0)

structure TradeOn (sym : SymbolId) (slot : Nat) (buy : Bool) (fill : Fill) : Prop where
  venue : fill.origin = .venue
  sym : fill.sym = sym
  slot : fill.strategyId = slot
  side : fill.buy = buy
  trade : fill.settlement = false
  nonneg : 0 ≤ fill.qty

def RoomFor (pos room : Int) (buy : Bool) : Prop :=
  |pos| ≤ i64Max ∧ if buy then room ≤ -pos else room ≤ pos

theorem nextPos_toward_zero {r : InstrumentRow} {qty rest : Int} (long : r.law = .spot → 0 ≤ r.pos1e6 slot)
    (nonneg : 0 ≤ qty) (later : 0 ≤ rest) (room : RoomFor (r.pos1e6 slot) (qty + rest) buy) :
    TowardZero (r.pos1e6 slot) (r.nextPos slot qty buy).1 ∧ RoomFor (r.nextPos slot qty buy).1 rest buy := by
  obtain ⟨fits, room⟩ := room
  unfold InstrumentRow.nextPos TowardZero RoomFor
  generalize r.pos1e6 slot = pos at *
  obtain ⟨le, ge⟩ := abs_le.mp fits
  cases buy with
  | true =>
    simp only [if_true] at room ⊢
    have kept : ¬ (r.law = .spot ∧ pos + qty < 0) := by
      rintro ⟨spot, short⟩
      have := long spot
      omega
    rw [satAdd_exact (by simp only [InI64, i64Min, i64Max] at *; omega), if_neg kept]
    exact ⟨by omega, abs_le.mpr (by omega), by omega⟩
  | false =>
    simp only [Bool.false_eq_true, if_false] at room ⊢
    have kept : ¬ (r.law = .spot ∧ pos - qty < 0) := by
      rintro ⟨spot, short⟩
      have := long spot
      omega
    rw [satSub_exact (by simp only [InI64, i64Min, i64Max] at *; omega), if_neg kept]
    exact ⟨by omega, abs_le.mpr (by omega), by omega⟩

theorem bookFill_toward_zero (h : l.inst.Exact) {i : Nat} {fill : Fill} (on : TradeOn sym slot buy fill)
    (known : slot < execSlots) (found : l.inst.instFind sym = some i) {rest : Int} (later : 0 ≤ rest)
    (room : RoomFor (l.positionOn slot sym) (fill.qty + rest) buy) :
    (l.bookFill fill).inst.instFind sym = some i ∧
      TowardZero (l.positionOn slot sym) ((l.bookFill fill).positionOn slot sym) ∧
      RoomFor ((l.bookFill fill).positionOn slot sym) rest buy := by
  obtain ⟨venue, rfl, rfl, rfl, trade, nonneg⟩ := on
  obtain ⟨found', booked⟩ := bookFill_position venue known found trade
  rw [positionOn_eq known found] at *
  rw [positionOn_eq known found', booked]
  exact ⟨found', nextPos_toward_zero (fun spot => (h.lawful i).spot spot _) nonneg later room⟩

theorem tradeOn_sum_nonneg {fills : List Fill} (on : ∀ fill ∈ fills, TradeOn sym slot buy fill) :
    0 ≤ (fills.map (·.qty)).sum := by
  apply List.sum_nonneg
  intro qty member
  obtain ⟨fill, inside, rfl⟩ := List.mem_map.mp member
  exact (on fill inside).nonneg

theorem fills_toward_zero (h : l.inst.Exact) {i : Nat} {done : List Fill} {fill : Fill} {later : List Fill}
    (on : ∀ f ∈ done ++ fill :: later, TradeOn sym slot buy f) (known : slot < execSlots)
    (found : l.inst.instFind sym = some i)
    (room : RoomFor (l.positionOn slot sym) ((done ++ fill :: later).map (·.qty)).sum buy) :
    TowardZero ((run bookFill l done).positionOn slot sym) ((run bookFill l (done ++ [fill])).positionOn slot sym) := by
  induction done generalizing l with
  | nil =>
    simp only [List.nil_append, List.map_cons, List.sum_cons] at room
    have rest := tradeOn_sum_nonneg fun f member => on f (List.mem_cons_of_mem _ member)
    exact (bookFill_toward_zero h (on fill (by simp)) known found rest room).2.1
  | cons first done ih =>
    simp only [List.cons_append, List.map_cons, List.sum_cons] at room
    have on' : ∀ f ∈ done ++ fill :: later, TradeOn sym slot buy f := fun f member => on f (List.mem_cons_of_mem _ member)
    obtain ⟨found', _, room'⟩ := bookFill_toward_zero h (on first (by simp)) known found (tradeOn_sum_nonneg on') room
    exact ih (bookFill_exact h first) on' found' room'

/-- A fill of the order judged, or of the working order in one row. -/
structure WorkFill where
  row : Option Nat
  fill : Fill

/-- Fills of the order and of the slot's other work on its side, none beyond its size. -/
structure Scheduled (l : Ledger) (sym : SymbolId) (slot : Nat) (qty : Int) (buy : Bool) (exclude : Option Nat)
    (perp : Bool) (fills : List WorkFill) : Prop where
  trades : ∀ w ∈ fills, TradeOn sym slot buy w.fill
  others : ∀ w ∈ fills, ∀ j, w.row = some j → (l.resting.rows j).worksOn slot sym buy exclude = true
  own : amountOf WorkFill.row (·.fill.qty) none fills ≤ qty
  sizes : ∀ j, amountOf WorkFill.row (·.fill.qty) (some j) fills ≤ (l.resting.rows j).workSize perp

theorem scheduled_sum {missed : Nat → Nat} (h : l.resting.Accounted missed) {qty : Int} {exclude : Option Nat}
    {perp : Bool} {fills : List WorkFill} (scheduled : Scheduled l sym slot qty buy exclude perp fills) :
    (fills.map (·.fill.qty)).sum ≤ qty + l.resting.workSum slot sym buy exclude perp := by
  have rows : ∀ w ∈ fills, ∀ j, w.row = some j → j < ledgerResting := by
    intro w member j row
    have works := scheduled.others w member j row
    simp only [worksOn, decide_eq_true_eq] at works
    exact h.live_bound works.1
  have nobody : ∀ j, (l.resting.rows j).worksOn slot sym buy exclude = false →
      amountOf WorkFill.row (·.fill.qty) (some j) fills = 0 := by
    intro j idle
    have others := scheduled.others
    clear scheduled rows
    induction fills with
    | nil => rfl
    | cons w rest ih =>
      have other : w.row ≠ some j := fun row => by simp [others w (by simp) j row] at idle
      rw [amountOf, if_neg other, ih fun v member => others v (by simp [member]), add_zero]
  rw [sum_amounts rows]
  refine add_le_add scheduled.own (sum_le_sum fun j _ => ?_)
  unfold workOn
  cases works : (l.resting.rows j).worksOn slot sym buy exclude with
  | true => exact scheduled.sizes j
  | false => exact (nobody j works).le

/-- An order of a list of exits, probed as an instrument or as a perp. -/
structure ExitOrder where
  clientOid : Nat
  qty : Int
  px : Int
  perp : Bool

/-- Each order is judged an exit and then recorded, in turn, while the resting table has room. -/
def ExitsInTurn (sym : SymbolId) (slot : Nat) (buy : Bool) : Ledger → List ExitOrder → Prop
  | _, [] => True
  | l, o :: rest =>
    (∃ p, l.probe sym slot o.qty buy o.px none o.perp = some p ∧ p.exit = true) ∧ l.resting.firstFree ≠ none ∧
      ExitsInTurn sym slot buy (l.step (.onSubmit o.clientOid slot sym o.qty buy o.px)) rest

theorem exits_in_turn_sum (reach : l.Reachable) (fits : |l.positionOn slot sym| ≤ i64Max) {orders : List ExitOrder}
    (some : orders ≠ []) (turns : ExitsInTurn sym slot buy l orders) :
    (orders.map ExitOrder.qty).sum + l.resting.workSum slot sym buy none false ≤ |l.positionOn slot sym| := by
  induction orders generalizing l with
  | nil => exact absurd rfl some
  | cons o rest ih =>
    obtain ⟨⟨p, judged, exit⟩, room, turns⟩ := turns
    obtain ⟨missed, h⟩ := reachable_accounted reach
    obtain ⟨i, _, known, pos, _, fitsIn⟩ := probe_exit h judged exit fits
    have less : l.resting.workSum slot sym buy none false ≤ l.resting.workSum slot sym buy none o.perp :=
      l.resting.workSum_le o.perp
    obtain ⟨row, free⟩ := Option.ne_none_iff_exists'.mp room
    have work : (l.resting.onSubmit o.clientOid slot sym o.qty buy o.px).workSum slot sym buy none false =
        l.resting.workSum slot sym buy none false + o.qty := Resting.onSubmit_workSum known free pos
    rw [List.map_cons, List.sum_cons]
    rcases eq_or_ne rest [] with rfl | more
    · rw [List.map_nil, List.sum_nil]
      omega
    -- recording the order moved its size from the probe into the work the rest is judged with
    have later := ih (reach.step (.onSubmit o.clientOid slot sym o.qty buy o.px)) fits more turns
    change _ + (l.resting.onSubmit _ slot sym _ buy _).workSum slot sym buy none false ≤ |l.positionOn slot sym| at later
    omega

theorem roomFor_of_exit {pos room : Int} (fits : |pos| ≤ i64Max) (against : opposes pos buy = true)
    (le : room ≤ |pos|) : RoomFor pos room buy := by
  refine ⟨fits, ?_⟩
  cases buy with
  | true =>
    simp only [opposes, decide_eq_true_eq, Bool.true_eq_false, and_false, and_true, false_or] at against
    rw [abs_of_neg against] at le
    exact le
  | false =>
    simp only [opposes, decide_eq_true_eq, Bool.false_eq_true, and_false, and_true, or_false] at against
    rw [abs_of_pos against] at le
    exact le

/-- In every reachable ledger, an order the probe calls an exit and the slot's other work on its side
take the position towards zero at every fill, in whatever order and parts they fill. And orders
judged exits and recorded one after the other add up to no more than the position. The position's
magnitude is taken to be a 64-bit word. -/
theorem exits_only_reduce (l : Ledger) (reach : l.Reachable) (sym : SymbolId) (slot : Nat) (buy : Bool)
    (fits : |l.positionOn slot sym| ≤ i64Max) :
    (∀ qty px exclude perp p, l.probe sym slot qty buy px exclude perp = some p → p.exit = true →
      ∀ done w later, Scheduled l sym slot qty buy exclude perp (done ++ w :: later) →
        TowardZero ((run bookFill l (done.map WorkFill.fill)).positionOn slot sym)
          ((run bookFill l ((done ++ [w]).map WorkFill.fill)).positionOn slot sym)) ∧
    ∀ orders, ExitsInTurn sym slot buy l orders → (orders.map ExitOrder.qty).sum ≤ |l.positionOn slot sym| := by
  obtain ⟨missed, h⟩ := reachable_accounted reach
  constructor
  · intro qty px exclude perp p judged exit done w later scheduled
    obtain ⟨i, found, known, _, against, fitsIn⟩ := probe_exit h judged exit fits
    have sum := scheduled_sum h scheduled
    have room := roomFor_of_exit fits against (sum.trans fitsIn)
    have on : ∀ f ∈ done.map WorkFill.fill ++ w.fill :: later.map WorkFill.fill, TradeOn sym slot buy f := by
      rw [← List.map_cons, ← List.map_append]
      intro f member
      obtain ⟨v, inside, rfl⟩ := List.mem_map.mp member
      exact scheduled.trades v inside
    rw [List.map_append]
    refine fills_toward_zero (reachable_exact reach) on known found ?_
    rw [← List.map_cons, ← List.map_append, List.map_map]
    exact room
  · intro orders turns
    rcases eq_or_ne orders [] with rfl | some
    · exact abs_nonneg _
    · have sum := exits_in_turn_sum reach fits some turns
      have work : 0 ≤ l.resting.workSum slot sym buy none false := l.resting.workSum_nonneg false
      omega

/-- A slot long ten contracts, with a sell of three working, may exit another seven. -/
def longTen : Ledger :=
  run step (new ⟨0, 0⟩)
    [.bindInstrument ⟨5, .linear, 0, ownerNone, 0, 0⟩,
      .bookFill ⟨1, 5, .bid, 2, .venue, false, false, 1000000, 10000000, 7⟩,
      .onSubmit 8 2 5 3000000 false 1000000]

theorem longTen_exits :
    let fill : Fill := ⟨2, 5, .ask, 2, .venue, false, false, 1000000, 3000000, 8⟩
    let orders : List ExitOrder := [⟨9, 4000000, 1000000, false⟩, ⟨10, 3000000, 1000000, true⟩]
    (longTen.probe 5 2 7000000 false 1000000 none false = some { InstProbe.default with exit := true } ∧
      Scheduled longTen 5 2 7000000 false none false [⟨some 0, fill⟩] ∧
      TowardZero (longTen.positionOn 2 5) ((run bookFill longTen [fill]).positionOn 2 5)) ∧
    ExitsInTurn 5 2 false longTen orders ∧ (orders.map ExitOrder.qty).sum ≤ |longTen.positionOn 2 5| := by
  intro fill orders
  have reach : longTen.Reachable := ⟨_, _, rfl⟩
  have fits : |longTen.positionOn 2 5| ≤ i64Max := by decide +kernel
  have judged : longTen.probe 5 2 7000000 false 1000000 none false = some { InstProbe.default with exit := true } := by
    decide +kernel
  have scheduled : Scheduled longTen 5 2 7000000 false none false [⟨some 0, fill⟩] := by
    refine ⟨fun w member => ?_, fun w member j row => ?_, by decide, fun j => ?_⟩
    · rw [List.mem_singleton.mp member]
      exact ⟨rfl, rfl, rfl, rfl, rfl, by decide⟩
    · rw [List.mem_singleton.mp member] at row
      cases row
      decide +kernel
    · cases j with
      | zero => decide +kernel
      | succ j => exact (longTen.resting.rows (j + 1)).workSize_nonneg false
  have turns : ExitsInTurn 5 2 false longTen orders := by
    refine ⟨⟨{ InstProbe.default with exit := true }, ?_, rfl⟩, ?_,
      ⟨{ InstProbe.default with exit := true }, ?_, rfl⟩, ?_, trivial⟩
    all_goals decide +kernel
  obtain ⟨reduces, sums⟩ := exits_only_reduce longTen reach 5 2 false fits
  exact ⟨⟨judged, scheduled, reduces _ _ _ _ _ judged rfl [] ⟨some 0, fill⟩ [] scheduled⟩, turns, sums orders turns⟩

end Ledger

end TradingEngine.Router
