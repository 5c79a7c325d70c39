import TradingEngine.Base.Reach
import TradingEngine.Router.Desk
import TradingEngine.Router.InstrumentAccounts

/-!
# The worst case of the family clamps

The instance cap is judged from fills, so orders in flight are each judged against the same position.
-/

namespace TradingEngine.Router

open Base CoreTypes Finset Function FamilyRow FamilyRows

/-- What may still fill of an order, on one side of one leg. -/
def Accepted.pendingOn (a : Accepted) (sym : SymbolId) (buy : Bool) : Int :=
  if a.order.sym = sym ∧ a.order.buy = buy then max a.rem 0 else 0

namespace Desk

variable {slot : Nat} {s : Desk}

/-- What may still fill on one side of a leg. -/
def pendingOn (s : Desk) (sym : SymbolId) (buy : Bool) : Int := ∑ k ∈ range s.n, (s.orders k).pendingOn sym buy

def pending (s : Desk) : Int := ∑ k ∈ range s.n, max (s.orders k).rem 0

def legReach (s : Desk) (sym : SymbolId) (pos : Int) : Reach := ⟨pos, s.pendingOn sym true, s.pendingOn sym false⟩

def yesReach (s : Desk) (slot i : Nat) : Reach :=
  s.legReach (s.router.ledger.rows i).symYes ((s.router.ledger.rows i).posYes1e6 slot)

def noReach (s : Desk) (slot i : Nat) : Reach :=
  s.legReach (s.router.ledger.rows i).symNo ((s.router.ledger.rows i).posNo1e6 slot)

def rowWorst (s : Desk) (slot i : Nat) : Int :=
  if (s.router.ledger.rows i).isBound then Reach.spread (s.yesReach slot i) (s.noReach slot i) else 0

def worst (s : Desk) (slot : Nat) : Int := ∑ i ∈ range ledgerRows, s.rowWorst slot i

theorem pendingOn_nonneg (s : Desk) (sym : SymbolId) (buy : Bool) : 0 ≤ s.pendingOn sym buy := by
  refine sum_nonneg fun k _ => ?_
  unfold Accepted.pendingOn
  split
  · exact Int.le_max_right _ _
  · exact Int.le_refl 0

def Long (slot : Nat) (rows : FamilyRows) : Prop :=
  ∀ i, 0 ≤ (rows i).posYes1e6 slot ∧ (rows i).posYes1e6 slot ≤ i64Max ∧
    0 ≤ (rows i).posNo1e6 slot ∧ (rows i).posNo1e6 slot ≤ i64Max

def Apart (rows : FamilyRows) : Prop := ∀ i, (rows i).isBound = true → (rows i).symYes ≠ (rows i).symNo

theorem isBound_of_holds {r : FamilyRow} {sym : SymbolId} (held : r.holds sym = true) : r.isBound = true :=
  (Bool.and_eq_true_iff.mp held).1

theorem yesReach_valid (h : Long slot s.router.ledger.rows) (i : Nat) : (s.yesReach slot i).Valid :=
  ⟨(h i).1, (h i).2.1, s.pendingOn_nonneg _ _, s.pendingOn_nonneg _ _⟩

theorem noReach_valid (h : Long slot s.router.ledger.rows) (i : Nat) : (s.noReach slot i).Valid :=
  ⟨(h i).2.2.1, (h i).2.2.2, s.pendingOn_nonneg _ _, s.pendingOn_nonneg _ _⟩

theorem netExposure_long {yes no : Int} (hy : 0 ≤ yes) (yTop : yes ≤ i64Max) (hn : 0 ≤ no) (nTop : no ≤ i64Max) :
    netExposure1e8 yes no = |yes - no| := by
  have fits : InI64 (yes - no) := by
    simp only [InI64, i64Min, i64Max] at *
    omega
  have size : |yes - no| ≤ i64Max := abs_le.mpr (by simp only [i64Max] at *; omega)
  rw [netExposure1e8, satSub_exact fits, satAbs, clamp_of_inI64]
  exact ⟨(show i64Min ≤ 0 by decide).trans (abs_nonneg _), size⟩

theorem familyExposure_eq (rows : FamilyRows) (known : slot < execSlots) :
    rows.familyExposure1e6 slot =
      min (∑ i ∈ range ledgerRows, if (rows i).isBound then (rows i).exposure slot else 0) i64Max := by
  unfold familyExposure1e6
  rw [if_neg (Nat.not_le.mpr known)]
  exact loop_satAdd (p := fun i => (rows i).isBound) (fun i => netExposure_nonneg _ _) ledgerRows

theorem exposure_le_rowWorst (h : Long slot s.router.ledger.rows) (i : Nat) :
    (if (s.router.ledger.rows i).isBound then (s.router.ledger.rows i).exposure slot else 0) ≤ s.rowWorst slot i := by
  unfold rowWorst
  split
  · obtain ⟨hy, yTop, hn, nTop⟩ := h i
    rw [exposure, netExposure_long hy yTop hn nTop]
    exact Reach.gap_le_spread (yesReach_valid h i) (noReach_valid h i)
  · exact Int.le_refl 0

theorem slotExposure_le_worst (h : Long slot s.router.ledger.rows) (known : slot < execSlots)
    (bare : s.router.ledger.inst.exposure1e6 slot = 0) :
    s.router.ledger.slotExposure1e6 slot ≤ s.worst slot := by
  have rows := sum_le_sum fun i (_ : i ∈ range ledgerRows) => exposure_le_rowWorst h i
  have nonneg : 0 ≤ s.worst slot :=
    (sum_nonneg fun i _ => by split; exacts [netExposure_nonneg _ _, Int.le_refl 0]).trans rows
  unfold Ledger.slotExposure1e6
  rw [if_neg (Nat.not_le.mpr known), familyExposure_eq _ known, bare]
  unfold worst at *
  simp only [satAdd, i64Clamp, i64Min, i64Max] at *
  omega

/-! ### Fills stay within the worst case -/

theorem bookFill_leg (l : Ledger) (fill : Fill) (j : Nat) :
    ((l.bookFill fill).rows j).symYes = (l.rows j).symYes ∧ ((l.bookFill fill).rows j).symNo = (l.rows j).symNo ∧
    ((l.bookFill fill).rows j).isBound = (l.rows j).isBound ∧
    (((l.bookFill fill).rows j).posYes1e6 fill.strategyId = (l.rows j).posYes1e6 fill.strategyId ∨
      (fill.sym = (l.rows j).symYes ∧ ((l.bookFill fill).rows j).posYes1e6 fill.strategyId =
        (apply ((l.rows j).posYes1e6 fill.strategyId) fill.qty fill.buy).1)) ∧
    (((l.bookFill fill).rows j).posNo1e6 fill.strategyId = (l.rows j).posNo1e6 fill.strategyId ∨
      (fill.sym = (l.rows j).symNo ∧ ((l.bookFill fill).rows j).posNo1e6 fill.strategyId =
        (apply ((l.rows j).posNo1e6 fill.strategyId) fill.qty fill.buy).1)) := by
  rcases l.bookFill_rows fill with same | ⟨i, found, _, booked⟩
  · rw [same]
    exact ⟨rfl, rfl, rfl, .inl rfl, .inl rfl⟩
  rw [booked]
  rcases eq_or_ne j i with rfl | other
  · obtain ⟨_, held⟩ := legRow_some found
    simp only [holds, Bool.and_eq_true, Bool.or_eq_true, decide_eq_true_eq] at held
    rw [update_self, legFilled]
    split
    · rename_i yes
      exact ⟨rfl, rfl, rfl, .inr ⟨yes, update_self ..⟩, .inl rfl⟩
    · rename_i yes
      exact ⟨rfl, rfl, rfl, .inl rfl, .inr ⟨held.2.resolve_left yes, update_self ..⟩⟩
  · rw [update_of_ne other]
    exact ⟨rfl, rfl, rfl, .inl rfl, .inl rfl⟩

theorem book_pendingOn {k : Nat} {fill : Fill} (lt : k < s.n) (nonneg : 0 ≤ fill.qty)
    (within : fill.qty ≤ (s.orders k).rem) (sym : SymbolId) (buy : Bool) :
    (s.book k fill).pendingOn sym buy =
      s.pendingOn sym buy - if (s.orders k).order.sym = sym ∧ (s.orders k).order.buy = buy then fill.qty else 0 := by
  have moved := sum_range_update lt s.orders { s.orders k with rem := (s.orders k).rem - fill.qty }
    fun a => a.pendingOn sym buy
  unfold pendingOn
  refine moved.trans ?_
  unfold Accepted.pendingOn
  dsimp only
  split <;> omega

theorem apply_long {pos qty : Int} (held : 0 ≤ pos) (top : pos ≤ i64Max) (nonneg : 0 ≤ qty) (buy : Bool) :
    (apply pos qty buy).1 = Reach.moved buy pos qty := by
  unfold apply Reach.moved
  cases buy with
  | true =>
    simp only [if_true, satAdd, i64Clamp, i64Min, i64Max]
    omega
  | false =>
    simp only [Bool.false_eq_true, if_false]
    split <;> simp only [satSub, i64Clamp, i64Min, i64Max] at * <;> omega

theorem book_within {k : Nat} {fill : Fill} (lt : k < s.n) (fills : (s.orders k).Fills fill) {sym : SymbolId}
    {pos pos' : Int} (valid : (s.legReach sym pos).Valid)
    (next : pos' = pos ∨ (fill.sym = sym ∧ pos' = (apply pos fill.qty fill.buy).1)) :
    ((s.book k fill).legReach sym pos').Within (s.legReach sym pos) := by
  obtain ⟨_, _, onSym, onSide, _, nonneg, within, _⟩ := fills
  have side : fill.buy = (s.orders k).order.buy := by rw [Fill.buy, Order.buy, onSide]
  have pending := fun buy => book_pendingOn lt nonneg within sym buy
  rcases next with rfl | ⟨here, rfl⟩
  · have less : ∀ buy, (s.book k fill).pendingOn sym buy ≤ s.pendingOn sym buy := by
      intro buy
      rw [pending]
      split <;> omega
    have ups := less true
    have downs := less false
    constructor <;> simp only [legReach, Reach.high, Reach.low] <;> omega
  · have own : (s.orders k).order.sym = sym := onSym.symm.trans here
    have arrives : (s.book k fill).legReach sym (apply pos fill.qty fill.buy).1 =
        (s.legReach sym pos).arrive fill.buy fill.qty := by
      have moved : (apply pos fill.qty fill.buy).1 = _ := apply_long valid.pos valid.top nonneg fill.buy
      rw [moved, legReach, pending, pending, side]
      cases buy : (s.orders k).order.buy <;> simp [own, legReach, Reach.arrive]
    rw [arrives]
    exact Reach.arrive_within valid nonneg fill.buy

theorem apply_range {pos qty : Int} (held : 0 ≤ pos) (top : pos ≤ i64Max) (nonneg : 0 ≤ qty) (buy : Bool) :
    0 ≤ (apply pos qty buy).1 ∧ (apply pos qty buy).1 ≤ i64Max := by
  rw [apply_long held top nonneg]
  unfold Reach.moved
  split <;> simp only [i64Max] at * <;> omega

theorem next_range {pos pos' qty : Int} {buy : Bool} {own : Prop} (held : 0 ≤ pos) (top : pos ≤ i64Max) (nonneg : 0 ≤ qty)
    (next : pos' = pos ∨ own ∧ pos' = (apply pos qty buy).1) : 0 ≤ pos' ∧ pos' ≤ i64Max := by
  rcases next with rfl | ⟨_, rfl⟩
  · exact ⟨held, top⟩
  · exact apply_range held top nonneg buy

theorem book_long {k : Nat} {fill : Fill} (h : Long slot s.router.ledger.rows)
    (owned : (s.orders k).order.strategyId = slot) (fills : (s.orders k).Fills fill) :
    Long slot (s.book k fill).router.ledger.rows := by
  intro j
  obtain ⟨hy, yTop, hn, nTop⟩ := h j
  obtain ⟨_, attributed, _, _, _, nonneg, _, _⟩ := fills
  obtain ⟨_, _, _, yes, no⟩ := bookFill_leg s.router.ledger fill j
  have slot' : fill.strategyId = slot := attributed.trans owned
  rw [slot'] at yes no
  obtain ⟨hy', yTop'⟩ := next_range hy yTop nonneg yes
  obtain ⟨hn', nTop'⟩ := next_range hn nTop nonneg no
  exact ⟨hy', yTop', hn', nTop'⟩

theorem book_worst_le {k : Nat} {fill : Fill} (h : Long slot s.router.ledger.rows) (lt : k < s.n)
    (owned : (s.orders k).order.strategyId = slot) (fills : (s.orders k).Fills fill) :
    (s.book k fill).worst slot ≤ s.worst slot := by
  refine sum_le_sum fun j _ => ?_
  obtain ⟨symYes, symNo, bound, yes, no⟩ := bookFill_leg s.router.ledger fill j
  have slot' : fill.strategyId = slot := fills.2.1.trans owned
  rw [slot'] at yes no
  have rows : (s.book k fill).router.ledger.rows = (s.router.ledger.bookFill fill).rows := rfl
  unfold rowWorst
  rw [rows, bound]
  split
  · unfold yesReach noReach
    rw [rows, symYes, symNo]
    exact Reach.spread_le_of_within (book_within lt fills (yesReach_valid h j) yes)
      (book_within lt fills (noReach_valid h j) no)
  · exact Int.le_refl 0

def rowPending (s : Desk) (i : Nat) : Int :=
  let r := s.router.ledger.rows i
  s.pendingOn r.symYes true + s.pendingOn r.symYes false + s.pendingOn r.symNo true + s.pendingOn r.symNo false

theorem order_rowPending (a : Accepted) (r : FamilyRow) (apart : r.symYes ≠ r.symNo) :
    a.pendingOn r.symYes true + a.pendingOn r.symYes false + a.pendingOn r.symNo true + a.pendingOn r.symNo false =
      if a.order.sym = r.symYes ∨ a.order.sym = r.symNo then max a.rem 0 else 0 := by
  unfold Accepted.pendingOn
  by_cases yes : a.order.sym = r.symYes
  · have no : a.order.sym ≠ r.symNo := yes ▸ apart
    cases a.order.buy <;> simp [yes, apart]
  · by_cases no : a.order.sym = r.symNo
    · cases a.order.buy <;> simp [no, apart.symm]
    · simp [yes, no]

theorem rowPending_le (disjoint : s.router.ledger.rows.LegsDisjoint) (apart : Apart s.router.ledger.rows) :
    (∑ i ∈ range ledgerRows, if (s.router.ledger.rows i).isBound then s.rowPending i else 0) ≤ s.pending := by
  have byOrder : ∀ i, (if (s.router.ledger.rows i).isBound then s.rowPending i else 0) =
      ∑ k ∈ range s.n, if (s.router.ledger.rows i).holds (s.orders k).order.sym then max (s.orders k).rem 0 else 0 := by
    intro i
    cases bound : (s.router.ledger.rows i).isBound with
    | false => simp [holds, bound]
    | true =>
      simp only [if_true, rowPending, pendingOn, ← sum_add_distrib, holds, bound, Bool.true_and,
        Bool.or_eq_true, decide_eq_true_eq]
      exact sum_congr rfl fun k _ => order_rowPending (s.orders k) _ (apart i bound)
  simp only [byOrder]
  rw [sum_comm]
  refine sum_le_sum fun k _ => ?_
  by_cases held : ∃ i < ledgerRows, (s.router.ledger.rows i).holds (s.orders k).order.sym = true
  · obtain ⟨i, lt, holds⟩ := held
    rw [sum_eq_single i]
    · simp [holds]
    · intro j member other
      refine if_neg fun holds' => other ?_
      exact disjoint.holder_unique (mem_range.mp member) lt holds' holds
    · intro outside
      exact absurd (mem_range.mpr lt) outside
  · push Not at held
    rw [sum_eq_zero fun i member => if_neg (by simp [held i (mem_range.mp member)])]
    exact Int.le_max_right _ _

theorem pending_le {most : Int} (sized : ∀ k < s.n, (s.orders k).rem ≤ most) : s.pending ≤ #s.working * most := by
  have each : ∀ k ∈ range s.n, max (s.orders k).rem 0 ≤ if 0 < (s.orders k).rem then most else 0 := by
    intro k member
    have := sized k (mem_range.mp member)
    split <;> omega
  refine (sum_le_sum each).trans ?_
  rw [← sum_filter, sum_const, nsmul_eq_mul]
  exact Int.le_refl _

/-! ### One more order -/

theorem accept_pendingOn (s : Desk) (router : RoutedDispatcher) (order : Order) (sym : SymbolId) (buy : Bool) :
    (s.accept router order).pendingOn sym buy =
      s.pendingOn sym buy + if order.sym = sym ∧ order.buy = buy then max order.qty 0 else 0 := by
  have n : (s.accept router order).n = s.n + 1 := rfl
  unfold pendingOn
  rw [n, sum_range_succ, accept_new]
  congr 1
  exact sum_congr rfl fun k member => by rw [accept_orders _ _ _ (mem_range.mp member)]

theorem accept_reach_other (s : Desk) (router : RoutedDispatcher) {order : Order} {sym : SymbolId}
    (other : order.sym ≠ sym) (pos : Int) : (s.accept router order).legReach sym pos = s.legReach sym pos := by
  simp [legReach, accept_pendingOn, other]

theorem accept_reach_own (s : Desk) (router : RoutedDispatcher) {order : Order} (nonneg : 0 ≤ order.qty) (pos : Int) :
    (s.accept router order).legReach order.sym pos = (s.legReach order.sym pos).more order.buy order.qty := by
  cases buy : order.buy <;> simp [legReach, accept_pendingOn, buy, Reach.more, Int.max_eq_left nonneg]

def legs (s : Desk) (slot i : Nat) (sym : SymbolId) : Reach × Reach :=
  if sym = (s.router.ledger.rows i).symYes then (s.yesReach slot i, s.noReach slot i)
  else (s.noReach slot i, s.yesReach slot i)

/-- The order, with everything that works in its direction, cannot take the net position of its row
past zero. -/
def Reduces (s : Desk) (slot : Nat) (order : Order) : Prop :=
  ∀ i < ledgerRows, (s.router.ledger.rows i).holds order.sym = true →
    let legs := s.legs slot i order.sym
    order.qty + Reach.towards legs.1 legs.2 order.buy ≤ Reach.room legs.1 legs.2 order.buy

theorem spread_legs (s : Desk) (slot i : Nat) (sym : SymbolId) :
    Reach.spread (s.legs slot i sym).1 (s.legs slot i sym).2 = Reach.spread (s.yesReach slot i) (s.noReach slot i) := by
  unfold legs
  split
  · rfl
  · exact Reach.spread_comm _ _

theorem legs_valid (h : Long slot s.router.ledger.rows) (i : Nat) (sym : SymbolId) :
    (s.legs slot i sym).1.Valid ∧ (s.legs slot i sym).2.Valid := by
  unfold legs
  split
  · exact ⟨yesReach_valid h i, noReach_valid h i⟩
  · exact ⟨noReach_valid h i, yesReach_valid h i⟩

theorem accept_legs {router : RoutedDispatcher} {order : Order} {i : Nat}
    (rows : router.ledger.rows = s.router.ledger.rows) (nonneg : 0 ≤ order.qty)
    (held : (s.router.ledger.rows i).holds order.sym = true)
    (apart : (s.router.ledger.rows i).symYes ≠ (s.router.ledger.rows i).symNo) :
    (s.accept router order).legs slot i order.sym =
      ((s.legs slot i order.sym).1.more order.buy order.qty, (s.legs slot i order.sym).2) := by
  simp only [holds, Bool.and_eq_true, Bool.or_eq_true, decide_eq_true_eq] at held
  have same : (s.accept router order).router.ledger.rows = s.router.ledger.rows := rows
  unfold legs yesReach noReach
  rw [same]
  by_cases yes : order.sym = (s.router.ledger.rows i).symYes
  · have no : order.sym ≠ (s.router.ledger.rows i).symNo := yes ▸ apart
    rw [if_pos yes, if_pos yes, accept_reach_other s router no, ← yes, accept_reach_own s router nonneg]
  · have no := held.2.resolve_left yes
    rw [if_neg yes, if_neg yes, accept_reach_other s router yes, ← no, accept_reach_own s router nonneg]

theorem legFilled_exposure (h : Long slot s.router.ledger.rows) {order : Order} (nonneg : 0 ≤ order.qty) (i : Nat) :
    (FamilyRows.legFilled (s.router.ledger.rows i) slot order.sym order.qty order.buy).exposure slot =
      |Reach.moved order.buy (s.legs slot i order.sym).1.pos order.qty - (s.legs slot i order.sym).2.pos| := by
  obtain ⟨hy, yTop, hn, nTop⟩ := h i
  have yes := apply_range hy yTop nonneg order.buy
  have no := apply_range hn nTop nonneg order.buy
  unfold legFilled legs yesReach noReach legReach exposure
  split
  · simp only [update_self]
    rw [netExposure_long yes.1 yes.2 hn nTop, apply_long hy yTop nonneg]
  · simp only [update_self]
    rw [netExposure_long hy yTop no.1 no.2, apply_long hn nTop nonneg, abs_sub_comm]

theorem towards_le_rowPending (h : Long slot s.router.ledger.rows) (i : Nat) (sym : SymbolId) (buy : Bool) :
    Reach.towards (s.legs slot i sym).1 (s.legs slot i sym).2 buy ≤ s.rowPending i := by
  have valid := legs_valid h i sym
  refine (Reach.towards_le valid.1 valid.2 buy).trans (le_of_eq ?_)
  unfold legs rowPending
  split
  · simp only [yesReach, noReach, legReach]
  · simp only [yesReach, noReach, legReach]
    ring

theorem rowWorst_le (h : Long slot s.router.ledger.rows) (i : Nat) :
    s.rowWorst slot i ≤ (if (s.router.ledger.rows i).isBound then (s.router.ledger.rows i).exposure slot else 0) +
      if (s.router.ledger.rows i).isBound then s.rowPending i else 0 := by
  unfold rowWorst
  split
  · obtain ⟨hy, yTop, hn, nTop⟩ := h i
    rw [exposure, netExposure_long hy yTop hn nTop]
    refine (Reach.spread_le (yesReach_valid h i) (noReach_valid h i)).trans (le_of_eq ?_)
    simp only [yesReach, noReach, legReach, rowPending]
  · exact Int.le_refl 0

theorem rowWorst_legs (s : Desk) (slot : Nat) {i : Nat} (bound : (s.router.ledger.rows i).isBound = true)
    (sym : SymbolId) : s.rowWorst slot i = Reach.spread (s.legs slot i sym).1 (s.legs slot i sym).2 := by
  rw [rowWorst, bound, if_pos rfl, spread_legs]

variable {router : RoutedDispatcher} {order : Order}

theorem accept_rowWorst_other (rows : router.ledger.rows = s.router.ledger.rows) {i : Nat}
    (other : (s.router.ledger.rows i).holds order.sym = false) :
    (s.accept router order).rowWorst slot i = s.rowWorst slot i := by
  have same : (s.accept router order).router.ledger.rows = s.router.ledger.rows := rows
  unfold rowWorst yesReach noReach
  rw [same]
  cases bound : (s.router.ledger.rows i).isBound with
  | false => rfl
  | true =>
    simp only [holds, bound, Bool.true_and, Bool.or_eq_false_iff, decide_eq_false_iff_not] at other
    rw [accept_reach_other s router other.1, accept_reach_other s router other.2]

theorem accept_worst_empty (rows : router.ledger.rows = s.router.ledger.rows) (empty : order.qty ≤ 0) :
    (s.accept router order).worst slot = s.worst slot := by
  have same : (s.accept router order).router.ledger.rows = s.router.ledger.rows := rows
  have pending : ∀ sym buy, (s.accept router order).pendingOn sym buy = s.pendingOn sym buy := by
    intro sym buy
    rw [accept_pendingOn, Int.max_eq_right empty]
    simp
  unfold worst rowWorst yesReach noReach legReach
  simp only [same, pending]

theorem accept_worst_reducing (h : Long slot s.router.ledger.rows) (rows : router.ledger.rows = s.router.ledger.rows)
    (nonneg : 0 ≤ order.qty) (apart : Apart s.router.ledger.rows)
    (reduces : s.Reduces slot order) : (s.accept router order).worst slot ≤ s.worst slot := by
  refine sum_le_sum fun i member => ?_
  cases held : (s.router.ledger.rows i).holds order.sym with
  | false => exact le_of_eq (accept_rowWorst_other rows held)
  | true =>
    have bound := isBound_of_holds held
    have bound' : ((s.accept router order).router.ledger.rows i).isBound = true := by
      rw [show (s.accept router order).router.ledger.rows = _ from rows]
      exact bound
    have valid := legs_valid h i order.sym
    rw [rowWorst_legs _ slot bound' order.sym, rowWorst_legs _ slot bound order.sym,
      accept_legs rows nonneg held (apart i bound)]
    exact Reach.spread_spare valid.1 valid.2 (reduces i (mem_range.mp member) held)

/-- The exposure the rows would have once the order is filled. -/
def booked (s : Desk) (slot : Nat) (order : Order) : Int :=
  ∑ i ∈ range ledgerRows,
    let r := (s.router.ledger.rows.bookLeg slot order.sym order.qty order.buy).1 i
    if r.isBound then r.exposure slot else 0

theorem accept_worst_le (h : Long slot s.router.ledger.rows) (rows : router.ledger.rows = s.router.ledger.rows)
    (nonneg : 0 ≤ order.qty) (disjoint : s.router.ledger.rows.LegsDisjoint) (apart : Apart s.router.ledger.rows) :
    (s.accept router order).worst slot ≤ s.worst slot ∨
      (∃ i < ledgerRows, (s.router.ledger.rows i).holds order.sym = true) ∧
        (s.accept router order).worst slot ≤ s.booked slot order + s.pending := by
  by_cases held : ∃ i < ledgerRows, (s.router.ledger.rows i).holds order.sym = true
  · obtain ⟨i, lt, held⟩ := held
    have bound := isBound_of_holds held
    have bound' : ((s.accept router order).router.ledger.rows i).isBound = true := by
      rw [show (s.accept router order).router.ledger.rows = _ from rows]
      exact bound
    have others : ∀ j < ledgerRows, j ≠ i → (s.router.ledger.rows j).holds order.sym = false := by
      intro j lt' other
      by_contra holds
      exact other (disjoint.holder_unique lt' lt (by simpa using holds) held)
    have valid := legs_valid h i order.sym
    have own : (s.accept router order).rowWorst slot i ≤ max (s.rowWorst slot i)
        ((legFilled (s.router.ledger.rows i) slot order.sym order.qty order.buy).exposure slot +
          s.rowPending i) := by
      rw [rowWorst_legs _ slot bound' order.sym, rowWorst_legs _ slot bound order.sym,
        accept_legs rows nonneg held (apart i bound), legFilled_exposure h nonneg]
      refine (Reach.spread_more valid.1 order.buy order.qty).trans (max_le_max_left _ ?_)
      exact Int.add_le_add_left (towards_le_rowPending h i order.sym order.buy) _
    rcases le_max_iff.mp own with stays | grows
    · refine .inl (sum_le_sum fun j member => ?_)
      rcases eq_or_ne j i with rfl | other
      · exact stays
      · exact le_of_eq (accept_rowWorst_other rows (others j (mem_range.mp member) other))
    · refine .inr ⟨⟨i, lt, held⟩, ?_⟩
      refine le_trans ?_ (Int.add_le_add_left (rowPending_le disjoint apart) _)
      unfold booked worst
      rw [← sum_add_distrib]
      refine sum_le_sum fun j member => ?_
      rw [bookLeg_some (legRow_of_holds disjoint lt held)]
      rcases eq_or_ne j i with rfl | other
      · simp only [update_self, legFilled_bound, bound, if_true]
        exact grows
      · rw [accept_rowWorst_other rows (others j (mem_range.mp member) other), update_of_ne other]
        exact rowWorst_le h j
  · push Not at held
    refine .inl (sum_le_sum fun j member => le_of_eq (accept_rowWorst_other rows ?_))
    simpa using held j (mem_range.mp member)

/-! ### The bound -/

/-- What the documented bound takes for granted of an order the gate lets through: no more contracts
than the size clamp has dollars, a free place among the open orders for a sell as well, an id of its
own, and beyond the cap a reduction that holds whatever else fills. -/
structure Modest (slot : Nat) (s : Desk) (order : Order) : Prop where
  size : order.qty ≤ (s.router.route.caps slot).maxOrderUsd1e6
  place : order.buy = false → s.router.ledger.slotResting slot < (s.router.route.caps slot).maxOpenOrders
  fresh : ∀ k ∈ s.working, (s.orders k).order.clientOid ≠ order.clientOid
  reduces : s.router.ledger.projectedExposure1e6 slot order.sym order.qty order.buy >
    (s.router.route.caps slot).capInstanceUsd1e6 → s.Reduces slot order

def Modestly (slot : Nat) (s : Desk) : DeskOp → Prop
  | .submit order venue =>
    order.strategyId = slot → (s.router.riskCheck order venue .place).2 = .ok () → s.Modest slot order
  | .fill _ _ => True

def bound (caps : SlotCaps) : Int := caps.capInstanceUsd1e6 + caps.maxOpenOrders * caps.maxOrderUsd1e6

/-- What every step keeps. -/
structure Safe (slot : Nat) (caps : SlotCaps) (s : Desk) : Prop where
  table : s.router.route.caps slot = caps
  bare : s.router.ledger.inst.n = 0
  unexposed : s.router.ledger.inst.exposure1e6 slot = 0
  long : Long slot s.router.ledger.rows
  disjoint : s.router.ledger.rows.LegsDisjoint
  apart : ∀ i, (s.router.ledger.rows i).isBound = true →
    (s.router.ledger.rows i).symYes ≠ (s.router.ledger.rows i).symNo
  counted : s.Counted slot
  owned : ∀ k < s.n, (s.orders k).order.strategyId = slot
  sized : ∀ k < s.n, (s.orders k).rem ≤ caps.maxOrderUsd1e6
  worst : s.worst slot ≤ bound caps

theorem bookFill_bare {l : Ledger} (bare : l.inst.n = 0) (fill : Fill) : (l.bookFill fill).inst = l.inst := by
  rcases l.bookFill_cases fill with ⟨_, same⟩ | ⟨_, _, _, same⟩ | ⟨_, _, i, found, _⟩ | ⟨_, _, _, booked⟩
  · rw [same]
  · rw [same]
  · simp [Instruments.instFind, bare] at found
  · rw [booked]
    rfl

theorem book_safe {caps : SlotCaps} (h : Safe slot caps s) {k : Nat} {fill : Fill} (lt : k < s.n)
    (fills : (s.orders k).Fills fill) : Safe slot caps (s.book k fill) := by
  have owned := h.owned k lt
  have inst : (s.book k fill).router.ledger.inst = s.router.ledger.inst := bookFill_bare h.bare fill
  have names := bookFill_leg s.router.ledger fill
  have nonneg := fills.2.2.2.2.2.1
  refine ⟨h.table, by rw [inst]; exact h.bare, by rw [inst]; exact h.unexposed, book_long h.long owned fills,
    fun i lt j lt' other bound bound' => ?_, fun i bound => ?_, book_counted h.counted lt owned fills,
    fun j lt => ?_, fun j lt => (s.book_rem j nonneg).trans (h.sized j lt),
    (book_worst_le h.long lt owned fills).trans h.worst⟩
  · obtain ⟨yes, no, same, _⟩ := names i
    obtain ⟨yes', no', same', _⟩ := names j
    have apart := h.disjoint i lt j lt' other (same ▸ bound) (same' ▸ bound')
    unfold shares at apart ⊢
    rwa [show (s.book k fill).router.ledger.rows = (s.router.ledger.bookFill fill).rows from rfl, yes, no, yes', no']
  · obtain ⟨yes, no, same, _⟩ := names i
    rw [show (s.book k fill).router.ledger.rows = (s.router.ledger.bookFill fill).rows from rfl] at bound ⊢
    rw [yes, no]
    exact h.apart i (same ▸ bound)
  · rw [book_order]
    exact h.owned j lt

theorem projected_eq {caps : SlotCaps} (h : Safe slot caps s) (known : slot < execSlots) {order : Order}
    (leg : ∃ i < ledgerRows, (s.router.ledger.rows i).holds order.sym = true) :
    s.router.ledger.projectedExposure1e6 slot order.sym order.qty order.buy = min (s.booked slot order) i64Max := by
  obtain ⟨i, lt, held⟩ := leg
  have nonneg : 0 ≤ s.booked slot order :=
    sum_nonneg fun i _ => by dsimp only; split; exacts [netExposure_nonneg _ _, Int.le_refl 0]
  unfold Ledger.projectedExposure1e6
  rw [if_neg (Nat.not_le.mpr known), h.unexposed, projectedFamily_eq h.disjoint lt held known, familyExposure_eq _ known]
  change satAdd (min (s.booked slot order) i64Max) 0 = _
  simp only [satAdd, i64Clamp, i64Min, i64Max]
  omega

variable {caps : SlotCaps}

theorem accept_worst_bound (h : Safe slot caps s) (known : slot < execSlots) {router : RoutedDispatcher}
    {order : Order} (rows : router.ledger.rows = s.router.ledger.rows) (short : bound caps < i64Max)
    (sizes : 0 ≤ caps.maxOrderUsd1e6) (room : s.router.ledger.resting.bySlot slot < caps.maxOpenOrders)
    (modest : s.Modest slot order) : (s.accept router order).worst slot ≤ bound caps := by
  rcases Int.le_total order.qty 0 with empty | nonneg
  · rw [accept_worst_empty rows empty]
    exact h.worst
  by_cases beyond : s.router.ledger.projectedExposure1e6 slot order.sym order.qty order.buy >
      (s.router.route.caps slot).capInstanceUsd1e6
  · exact (accept_worst_reducing h.long rows nonneg h.apart (modest.reduces beyond)).trans h.worst
  rcases accept_worst_le h.long rows nonneg h.disjoint h.apart with stays | ⟨leg, grows⟩
  · exact stays.trans h.worst
  rw [projected_eq h known leg, h.table] at beyond
  have few := h.counted.working_le known
  have pending := pending_le h.sized
  have fewer : (#s.working : Int) * caps.maxOrderUsd1e6 ≤ caps.maxOpenOrders * caps.maxOrderUsd1e6 :=
    mul_le_mul_of_nonneg_right (by exact_mod_cast (by omega : #s.working ≤ caps.maxOpenOrders)) sizes
  have more : 0 ≤ (caps.maxOpenOrders : Int) * caps.maxOrderUsd1e6 := mul_nonneg (by omega) sizes
  unfold bound at *
  omega

theorem accept_safe (h : Safe slot caps s) (known : slot < execSlots) (short : bound caps < i64Max)
    (sizes : 0 ≤ caps.maxOrderUsd1e6) (capped : 0 ≤ caps.capInstanceUsd1e6) (word : caps.maxOpenOrders ≤ u32Max)
    {order : Order} {venue : Nat} (owned : order.strategyId = slot)
    (passed : (s.router.riskCheck order venue .place).2 = .ok ()) (modest : s.Modest slot order) :
    Safe slot caps (s.accept (s.router.riskCheck order venue .place).1 order) := by
  obtain ⟨route, rows, resting, inst⟩ := s.router.riskCheck_books order venue .place
  obtain ⟨_, _, buys, _⟩ := RoutedDispatcher.riskCheck_family h.bare passed
  have room : s.router.ledger.resting.bySlot slot < caps.maxOpenOrders := by
    have counted : s.router.ledger.slotResting slot = s.router.ledger.resting.bySlot slot := if_neg (Nat.not_le.mpr known)
    have place := modest.place
    rw [owned] at buys
    rw [h.table, counted] at buys place
    cases buy : order.buy with
    | true => exact buys buy
    | false => exact place buy
  have fits : order.qty ≤ i64Max := by
    have once : caps.maxOrderUsd1e6 ≤ caps.maxOpenOrders * caps.maxOrderUsd1e6 :=
      le_mul_of_one_le_left sizes (by exact_mod_cast (by omega : 1 ≤ caps.maxOpenOrders))
    have size := modest.size
    rw [h.table] at size
    unfold bound at short
    omega
  have worst := accept_worst_bound h known rows short sizes room modest
  have same : (s.accept (s.router.riskCheck order venue .place).1 order).router.ledger.rows = s.router.ledger.rows := rows
  refine ⟨?_, ?_, ?_, by rw [same]; exact h.long, by rw [same]; exact h.disjoint, by rw [same]; exact h.apart,
    accept_counted h.counted known owned resting (by omega) fits modest.fresh, fun k lt => ?_, fun k lt => ?_, worst⟩
  · exact (congrArg (fun r : ExecRoute => r.caps slot) route).trans h.table
  · exact (congrArg Instruments.n inst).trans h.bare
  · exact (congrArg (fun t : Instruments => t.exposure1e6 slot) inst).trans h.unexposed
  · rcases Nat.lt_succ_iff_lt_or_eq.mp lt with old | rfl
    · rw [accept_orders _ _ _ old]
      exact h.owned k old
    · rw [accept_new]
      exact owned
  · rcases Nat.lt_succ_iff_lt_or_eq.mp lt with old | rfl
    · rw [accept_orders _ _ _ old]
      exact h.sized k old
    · rw [accept_new]
      exact h.table ▸ modest.size

theorem refused_safe (h : Safe slot caps s) (order : Order) (venue : Nat) :
    Safe slot caps { s with router := (s.router.riskCheck order venue .place).1 } := by
  obtain ⟨route, rows, resting, inst⟩ := s.router.riskCheck_books order venue .place
  obtain ⟨own, fits, ids, accounts⟩ := h.counted
  have worst := h.worst
  unfold Desk.worst rowWorst yesReach noReach at worst
  refine ⟨by rw [route]; exact h.table, by rw [inst]; exact h.bare, by rw [inst]; exact h.unexposed,
    by rw [rows]; exact h.long, by rw [rows]; exact h.disjoint, by rw [rows]; exact h.apart,
    ⟨by rw [resting]; exact own, fits, ids, by rw [resting]; exact accounts⟩, h.owned, h.sized, ?_⟩
  unfold Desk.worst rowWorst yesReach noReach
  rw [rows]
  exact worst

theorem step_safe (known : slot < execSlots) (short : bound caps < i64Max) (sizes : 0 ≤ caps.maxOrderUsd1e6)
    (capped : 0 ≤ caps.capInstanceUsd1e6) (word : caps.maxOpenOrders ≤ u32Max) (s : Desk) (op : DeskOp)
    (modest : Modestly slot s op) (h : Safe slot caps s) : Safe slot caps (s.step slot op) := by
  cases op with
  | submit order venue =>
    unfold step
    dsimp only
    split
    · exact h
    rename_i owned
    have owned : order.strategyId = slot := by simpa using owned
    split
    · rename_i router taken
      have passed : (s.router.riskCheck order venue .place).2 = .ok () := by rw [taken]
      have kept := accept_safe h known short sizes capped word owned passed (modest owned passed)
      rwa [taken] at kept
    · rename_i router why refused
      have kept := refused_safe h order venue
      rwa [refused] at kept
  | fill k fill =>
    unfold step
    dsimp only
    split
    · rename_i real
      exact book_safe h real.1 real.2
    · exact h

/-- A slot before its first order: family rows alone are bound, it holds nothing and nothing rests. -/
structure Fresh (slot : Nat) (router : RoutedDispatcher) : Prop where
  reach : router.ledger.Reachable
  bare : router.ledger.inst.n = 0
  flat : ∀ i, (router.ledger.rows i).posYes1e6 slot = 0 ∧ (router.ledger.rows i).posNo1e6 slot = 0
  rows : router.ledger.resting.rows = Resting.new.rows
  bySlot : router.ledger.resting.bySlot = Resting.new.bySlot
  usd : router.ledger.resting.usd1e6 = Resting.new.usd1e6
  hi : router.ledger.resting.hi = Resting.new.hi

variable {router : RoutedDispatcher}

theorem Fresh.unexposed (h : Fresh slot router) (known : slot < execSlots) :
    router.ledger.inst.exposure1e6 slot = 0 := by
  have exact := Ledger.reachable_exact h.reach
  rw [exact.summed.total slot known]
  refine sum_eq_zero fun i _ => ?_
  rw [exact.keyed.free i (by rw [h.bare]; exact Nat.zero_le i)]
  rfl

theorem Fresh.counted (h : Fresh slot router) : Counted slot (start router) := by
  have accounted : router.ledger.resting.Accounted fun _ => 0 := by
    have empty := Resting.new_accounted.recount router.ledger.resting.full router.ledger.resting.ambiguous
      router.ledger.resting.unmatched
    rwa [← h.rows, ← h.bySlot, ← h.usd, ← h.hi] at empty
  refine ⟨fun i live => ?_, nofun, fun j member => ?_, fun _ => 0, accounted, (by decide : 0 + ledgerResting ≤ u32Max), ?_⟩
  · change (router.ledger.resting.rows i).live = true at live
    rw [h.rows] at live
    simp [Resting.new, RestingRow.free] at live
  · exact absurd (mem_working.mp member).1 (Nat.not_lt_zero j)
  · have none : (start router).working = ∅ := by simp [working, start]
    rw [none, Finset.filter_empty, Finset.card_empty]

theorem Fresh.safe (h : Fresh slot router) (known : slot < execSlots) (disjoint : router.ledger.rows.LegsDisjoint)
    (sizes : 0 ≤ (router.route.caps slot).maxOrderUsd1e6)
    (capped : 0 ≤ (router.route.caps slot).capInstanceUsd1e6) :
    Safe slot (router.route.caps slot) (start router) := by
  have rolled := Ledger.reachable_rolled h.reach
  have top : (0 : Int) ≤ i64Max := by decide
  refine ⟨rfl, h.bare, h.unexposed known, fun i => ?_, disjoint, fun i bound => ?_, h.counted, nofun, nofun, ?_⟩
  · change 0 ≤ (router.ledger.rows i).posYes1e6 slot ∧ (router.ledger.rows i).posYes1e6 slot ≤ i64Max ∧
      0 ≤ (router.ledger.rows i).posNo1e6 slot ∧ (router.ledger.rows i).posNo1e6 slot ≤ i64Max
    rw [(h.flat i).1, (h.flat i).2]
    exact ⟨Int.le_refl 0, top, Int.le_refl 0, top⟩
  · obtain ⟨_, _, _, _, next⟩ := rolled.formed i bound
    change (router.ledger.rows i).symYes ≠ (router.ledger.rows i).symNo
    rw [next]
    exact fun same => by simp at same
  · have none : (start router).worst slot = 0 := by
      refine sum_eq_zero fun i _ => ?_
      unfold rowWorst yesReach noReach legReach
      split
      · change Reach.spread ⟨(router.ledger.rows i).posYes1e6 slot, 0, 0⟩
          ⟨(router.ledger.rows i).posNo1e6 slot, 0, 0⟩ = 0
        rw [(h.flat i).1, (h.flat i).2]
        decide
      · rfl
    rw [none]
    exact add_nonneg capped (mul_nonneg (by omega) sizes)

/-- Over every run of accepted orders and their fills in which each order is modest, the exposure
never exceeds the cap by more than the size clamp for each open order. -/
theorem family_worst_case (slot : Nat) (known : slot < execSlots) (router : RoutedDispatcher)
    (fresh : Fresh slot router) (disjoint : router.ledger.rows.LegsDisjoint)
    (sizes : 0 ≤ (router.route.caps slot).maxOrderUsd1e6) (capped : 0 ≤ (router.route.caps slot).capInstanceUsd1e6)
    (word : (router.route.caps slot).maxOpenOrders ≤ u32Max) (ops : List DeskOp)
    (modest : Along (step slot) (Modestly slot) (start router) ops) :
    (run (step slot) (start router) ops).router.ledger.slotExposure1e6 slot ≤
      (router.route.caps slot).capInstanceUsd1e6 +
        (router.route.caps slot).maxOpenOrders * (router.route.caps slot).maxOrderUsd1e6 := by
  change _ ≤ bound (router.route.caps slot)
  rcases lt_or_ge (bound (router.route.caps slot)) i64Max with short | wide
  · have safe := run_invariant_along (fresh.safe known disjoint sizes capped)
      (step_safe known short sizes capped word) modest
    exact (slotExposure_le_worst safe.long known safe.unexposed).trans safe.worst
  · refine le_trans ?_ wide
    unfold Ledger.slotExposure1e6
    split
    · decide
    · exact (satAdd_inI64 _ _).2

/-- One family is bound for a slot that may place two orders of ten dollars each. -/
def tenDollarRouter : RoutedDispatcher where
  route :=
    { modes := fun _ => .live
      venueMask := fun _ _ => true
      caps := fun _ => ⟨10000000, 100000000, 1000000000, 2⟩
      halts := fun _ => .none
      perp := fun _ => ⟨0, 0⟩ }
  routeVenue := fun _ venue => venue
  ledger := run Ledger.step (Ledger.new ⟨0, 0⟩) [.bind 4 0 20182 67108964, .markSeeded]
  halt := .new
  counters := .new

theorem tenDollarRouter_fresh : Fresh 3 tenDollarRouter := by
  refine ⟨⟨_, _, rfl⟩, by decide +kernel, fun i => ?_, rfl, rfl, rfl, rfl⟩
  rcases i with _ | i
  · decide +kernel
  · exact ⟨rfl, rfl⟩

/-- Ten contracts at ten cents, bought, filled and offered again. -/
theorem ten_contracts_stay_bounded :
    let order : Order := ⟨1, 67108964, .bid, false, 100000, 10000000, 7, 4, 3⟩
    let fill : Fill := ⟨2, 67108964, .bid, 3, .venue, false, false, 100000, 10000000, 7⟩
    let s := run (step 3) (start tenDollarRouter)
      [.submit order 4, .fill 0 fill, .submit { order with side := .ask, clientOid := 8 } 4]
    s.n = 2 ∧ s.router.ledger.slotExposure1e6 3 ≤ 120000000 := by
  refine ⟨by decide +kernel, ?_⟩
  refine family_worst_case 3 (by decide) tenDollarRouter tenDollarRouter_fresh (by decide +kernel)
    (by decide +kernel) (by decide +kernel) (by decide +kernel) _ ⟨fun _ _ => ?_, trivial, fun _ _ => ?_, trivial⟩
  · exact ⟨by decide +kernel, by decide +kernel, by decide +kernel, fun beyond => absurd beyond (by decide +kernel)⟩
  · exact ⟨by decide +kernel, by decide +kernel, by decide +kernel, fun beyond => absurd beyond (by decide +kernel)⟩

/-- A hundred contracts at ten cents pass the ten-dollar clamp, and two such orders the instance cap. -/
theorem dime_contracts_overrun :
    let order : Order := ⟨1, 67108964, .bid, false, 100000, 100000000, 7, 4, 3⟩
    let fill : Fill := ⟨2, 67108964, .bid, 3, .venue, false, false, 100000, 100000000, 7⟩
    let s := run (step 3) (start tenDollarRouter)
      [.submit order 4, .submit { order with clientOid := 8 } 4, .fill 0 fill, .fill 1 { fill with orderId := 8 }]
    s.n = 2 ∧ s.router.ledger.slotExposure1e6 3 = 200000000 ∧
      s.router.ledger.slotExposure1e6 3 >
        (tenDollarRouter.route.caps 3).capInstanceUsd1e6 +
          (tenDollarRouter.route.caps 3).maxOpenOrders * (tenDollarRouter.route.caps 3).maxOrderUsd1e6 := by
  decide +kernel

end Desk

end TradingEngine.Router
