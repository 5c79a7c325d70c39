import Mathlib.Data.List.Sort
import Mathlib.Data.Prod.Lex
import TradingEngine.Router.DayTurnover
import TradingEngine.Router.Exits
import TradingEngine.Router.Reductions

/-!
# The day read at boot is the day booked live

After a restart a row's day is read back from the venue's trades, replayed in order from the position before them.
-/

namespace TradingEngine.Router

open Base CoreTypes List

structure TradeRow where
  tradeId : Nat
  px1e6 : Int
  qty1e6 : Int
  timeMs : Nat
  side : Side

namespace TradeRow

variable (t : TradeRow)

def key : Nat ×ₗ Nat := toLex (t.timeMs, t.tradeId)

def buy : Bool := t.side = .bid

def signed : Int := if t.buy then t.qty1e6 else -t.qty1e6

/-- The price a row of a law and a dollar unit puts on the trade. -/
def priceOn (law : Law) (unit : Int) : Int := if law = .inverse then unit else t.px1e6

/-- The venue's fill of the trade, as the router books it. -/
def fill (sym : SymbolId) (slot tsNs orderId : Nat) : Fill :=
  ⟨tsNs, sym, t.side, slot, .venue, false, false, t.px1e6, t.qty1e6, orderId⟩

end TradeRow

/-- The insertion sort: a row sinks past the later ones among those before it, kept here last first. -/
def sortTrades (trades : List TradeRow) : List TradeRow :=
  (trades.foldl (fun before t => before.orderedInsert (fun a b => b.key ≤ a.key) t) []).reverse

/-- One trade of the replay, on the position and the amount spent. -/
def replayTrade (inverse : Bool) (unit : Int) (s : Int × Int) (t : TradeRow) : Int × Int :=
  let opposes := (s.1 > 0 ∧ t.buy = false) ∨ (s.1 < 0 ∧ t.buy = true)
  let inc := if opposes then max (t.qty1e6 - satAbs s.1) 0 else t.qty1e6
  let add := ((inc * if inverse then unit else t.px1e6).tdiv 1000000).bmod (2 ^ 64)
  (if t.buy then satAdd s.1 t.qty1e6 else satSub s.1 t.qty1e6, satAdd s.2 add)

def dayIncreasing1e6 (trades : List TradeRow) (current : Int) (inverse : Bool) (unit : Int) : Int :=
  let trades := sortTrades trades
  let net := trades.foldl (fun net t => satAdd net t.signed) 0
  (trades.foldl (replayTrade inverse unit) (satSub current net, 0)).2

def netOf (trades : List TradeRow) : Int := (trades.map TradeRow.signed).sum

variable {trades ordered : List TradeRow} {t : TradeRow} {law : Law} {unit : Int}

theorem sortTrades_perm (trades : List TradeRow) : (sortTrades trades).Perm trades := by
  unfold sortTrades
  rw [foldl_eq_foldr_reverse]
  exact (reverse_perm _).trans ((perm_insertionSort _ _).trans (reverse_perm _))

theorem sortTrades_sorted (trades : List TradeRow) : (sortTrades trades).Pairwise fun a b => a.key ≤ b.key := by
  unfold sortTrades
  rw [foldl_eq_foldr_reverse, pairwise_reverse]
  have : Std.Total fun a b : TradeRow => b.key ≤ a.key := ⟨fun a b => le_total _ _⟩
  have : IsTrans TradeRow fun a b => b.key ≤ a.key := ⟨fun _ _ _ first second => second.trans first⟩
  exact pairwise_insertionSort _ _

/-- The rows have one order by time and trade id, however they come. -/
theorem sortTrades_eq (distinct : (trades.map TradeRow.key).Nodup) (same : ordered.Perm trades)
    (rising : ordered.Pairwise fun a b => a.key ≤ b.key) : sortTrades trades = ordered := by
  refine ((sortTrades_perm trades).trans same.symm).eq_of_pairwise (fun a b one two le ge => ?_)
    (sortTrades_sorted trades) rising
  exact inj_on_of_nodup_map distinct ((sortTrades_perm trades).mem_iff.mp one) (same.mem_iff.mp two) (le_antisymm le ge)

theorem net_exact (nets : ∀ done, done <+: ordered → InI64 (netOf done)) :
    ordered.foldl (fun net t => satAdd net t.signed) 0 = netOf ordered := by
  induction ordered using reverseRecOn with
  | nil => rfl
  | append_singleton done t ih =>
    have whole := nets _ prefix_rfl
    rw [foldl_append, ih fun part inside => nets part (inside.trans (prefix_append _ _))]
    unfold netOf at *
    rw [map_append, sum_append, map_singleton, sum_singleton] at *
    exact satAdd_exact whole

theorem increasing_le {qty : Int} (positive : 0 < qty) (pos : Int) (buy : Bool) :
    0 ≤ increasing pos qty buy ∧ increasing pos qty buy ≤ qty := by
  have nonneg := satAbs_nonneg pos
  unfold increasing
  split_ifs <;> omega

theorem wrapped_mul1e6 {inc price : Int} (nonneg : 0 ≤ inc * price)
    (fits : (inc * price).tdiv 1000000 ≤ instExposureMax) :
    ((inc * price).tdiv 1000000).bmod (2 ^ 64) = mul1e6 inc price := by
  have := Int.tdiv_nonneg nonneg (show (0 : Int) ≤ 1000000 by decide)
  unfold mul1e6 instExposureMax at *
  generalize (inc * price).tdiv 1000000 = p at *
  rw [Int.bmod_eq_of_le (by omega) (by omega)]
  dsimp only
  split_ifs <;> omega

/-- A trade of positive size, at a price that keeps its product in range. -/
def Ranged (law : Law) (unit : Int) (t : TradeRow) : Prop :=
  0 < t.qty1e6 ∧ 0 ≤ t.priceOn law unit ∧ (t.qty1e6 * t.priceOn law unit).tdiv 1000000 ≤ instExposureMax

/-- One trade, read back and booked, moves the position and the day alike. -/
theorem replayTrade_eq {r : InstrumentRow} (terms : r.terms = (law, unit)) (perp : law ≠ .spot)
    (ranged : Ranged law unit t) (slot : Nat) (spent : Int) :
    replayTrade (law = .inverse) unit (r.pos1e6 slot, spent) t =
      ((r.nextPos slot t.qty1e6 t.buy).1, satAdd spent (r.turnoverOf slot t.qty1e6 t.buy t.px1e6)) := by
  cases terms
  obtain ⟨qty, price, product⟩ := ranged
  obtain ⟨nonneg, le⟩ := increasing_le qty (r.pos1e6 slot) t.buy
  have below := Int.mul_le_mul_of_nonneg_right le price
  have above := Int.mul_nonneg nonneg price
  have add := wrapped_mul1e6 above (by rw [Int.tdiv_eq_ediv_of_nonneg (by omega)] at product ⊢; omega)
  have inc : (if (r.pos1e6 slot > 0 ∧ t.buy = false) ∨ (r.pos1e6 slot < 0 ∧ t.buy = true) then
      max (t.qty1e6 - satAbs (r.pos1e6 slot)) 0 else t.qty1e6) = increasing (r.pos1e6 slot) t.qty1e6 t.buy := by
    unfold increasing
    split_ifs <;> omega
  unfold replayTrade InstrumentRow.nextPos InstrumentRow.turnoverOf
  unfold TradeRow.priceOn at add
  dsimp only
  rw [inc, if_neg (c := r.law = .spot ∧ _) fun spot => perp spot.1, ← apply_ite (mul1e6 _), ← add]
  simp only [decide_eq_true_eq]

theorem Day.rollDay_today {d : Day} {ts : Nat} (today : d.epoch = 0 ∨ ts / dayNs ≤ d.epoch) :
    (d.rollDay ts).turnover1e6 = d.turnover1e6 ∧ ((d.rollDay ts).epoch = 0 ∨ ts / dayNs ≤ (d.rollDay ts).epoch) := by
  unfold rollDay
  dsimp only
  split_ifs with unstamped first later
  · exact ⟨rfl, today⟩
  · exact ⟨rfl, .inr (Nat.le_refl _)⟩
  · omega
  · exact ⟨rfl, today⟩

theorem satAdd_assoc {a b c : Int} (ha : 0 ≤ a) (hb : 0 ≤ b) (hc : 0 ≤ c) :
    satAdd (satAdd a b) c = satAdd a (satAdd b c) := by
  simp only [satAdd, i64Clamp, i64Min, i64Max]
  omega

namespace Ledger

variable {l : Ledger} {sym : SymbolId} {i slot day : Nat}

/-- A fill of the day adds the trade's turnover to it. -/
theorem bookFill_day (t : TradeRow) {ts : Nat} (oid : Nat) (known : slot < execSlots) (found : l.inst.instFind sym = some i)
    (today : l.day.epoch = 0 ∨ ts / dayNs ≤ l.day.epoch) :
    let day := (l.bookFill (t.fill sym slot ts oid)).day
    (day.epoch = 0 ∨ ts / dayNs ≤ day.epoch) ∧ day.turnover1e6 slot =
      satAdd (l.day.turnover1e6 slot) ((l.inst.rows i).turnoverOf slot t.qty1e6 t.buy t.px1e6) := by
  obtain ⟨kept, today'⟩ := Day.rollDay_today today
  rw [bookFill_found rfl known found, ← kept]
  simp only [bookInstrumentFill, TradeRow.fill, Bool.false_eq_true, if_false]
  split_ifs <;> exact ⟨today', Function.update_self ..⟩

/-- A row's trades, booked from the position and the day of their replay, count what the replay spends. -/
theorem bookFills_replay {ts oid : TradeRow → Nat} {base spent : Int} (known : slot < execSlots) (perp : law ≠ .spot)
    (ranged : ∀ t ∈ ordered, Ranged law unit t ∧ ts t / dayNs = day) (nonneg : 0 ≤ base ∧ 0 ≤ spent)
    (found : l.inst.instFind sym = some i) (terms : (l.inst.rows i).terms = (law, unit))
    (today : l.day.epoch = 0 ∨ day ≤ l.day.epoch) (counted : l.day.turnover1e6 slot = satAdd base spent) :
    (run bookFill l (ordered.map fun t => t.fill sym slot (ts t) (oid t))).day.turnover1e6 slot =
      satAdd base (ordered.foldl (replayTrade (law = .inverse) unit) ((l.inst.rows i).pos1e6 slot, spent)).2 := by
  induction ordered generalizing l spent with
  | nil => exact counted
  | cons t ordered ih =>
    obtain ⟨own, rfl⟩ := ranged t mem_cons_self
    let fill := t.fill sym slot (ts t) (oid t)
    have venue : fill.origin = .venue := rfl
    obtain ⟨found', moved⟩ := bookFill_position venue known found rfl
    obtain ⟨today', added⟩ := bookFill_day t (oid t) known found today
    have turned := turnoverOf_nonneg (l.inst.rows i) slot t.qty1e6 t.buy t.px1e6
    rw [foldl_cons, replayTrade_eq terms perp own]
    rw [show (InstrumentRow.nextPos _ slot t.qty1e6 t.buy).1 = _ from moved.symm]
    refine ih (fun t inside => ranged t (mem_cons_of_mem _ inside)) ⟨nonneg.1, ?_⟩ found' ?_ today' ?_
    · rw [satAdd_of_nonneg nonneg.2 turned]
      exact le_min (by omega) (by decide)
    · rw [bookFill_inst venue known found rfl]
      exact (Instruments.setRow_refresh_terms (r := traded _ fill) rfl i).trans terms
    · rw [added, counted, satAdd_assoc nonneg.1 nonneg.2 turned]

/-- However the venue lists a row's trades, the day read from them is one number, and it is what booking them in order
adds to the day. -/
theorem day_read_is_day_booked (distinct : (trades.map TradeRow.key).Nodup)
    (positive : ∀ t ∈ trades, 0 < t.qty1e6 ∧ 0 < t.px1e6) :
    (∀ listed current inverse unit, listed.Perm trades →
      dayIncreasing1e6 listed current inverse unit = dayIncreasing1e6 trades current inverse unit) ∧
    ∀ (l : Ledger) sym i slot day current law unit ordered (ts oid : TradeRow → Nat), ordered.Perm trades →
      ordered.Pairwise (fun a b => a.key < b.key) → slot < execSlots → l.inst.instFind sym = some i →
      (l.inst.rows i).terms = (law, unit) → law = .linear ∨ law = .inverse → 0 ≤ unit →
      (∀ t ∈ trades, (t.qty1e6 * t.priceOn law unit).tdiv 1000000 ≤ instExposureMax) →
      (∀ done, done <+: ordered → InI64 (netOf done)) → InI64 (current - netOf trades) →
      (l.inst.rows i).pos1e6 slot = current - netOf trades → l.day.Counts →
      (∀ t ∈ trades, ts t / dayNs = day) → l.day.epoch = 0 ∨ day ≤ l.day.epoch →
      (run bookFill l (ordered.map fun t => t.fill sym slot (ts t) (oid t))).day.turnover1e6 slot =
        satAdd (l.day.turnover1e6 slot) (dayIncreasing1e6 trades current (law = .inverse) unit) := by
  constructor
  · intro listed current inverse unit same
    unfold dayIncreasing1e6
    rw [sortTrades_eq distinct ((sortTrades_perm listed).trans same) (sortTrades_sorted listed)]
  · intro l sym i slot day current law unit ordered ts oid same rising known found terms perp face products nets fits
      start counts stamped today
    unfold dayIncreasing1e6
    dsimp only
    have net : netOf ordered = netOf trades := (same.map _).sum_eq
    rw [sortTrades_eq distinct same (rising.imp le_of_lt), net_exact nets, net, satSub_exact fits, ← start]
    refine bookFills_replay known (by rintro rfl; simp at perp) (fun t inside => ?_) ⟨(counts slot).1, Int.le_refl 0⟩
      found terms today ?_
    · have inside := same.mem_iff.mp inside
      obtain ⟨qty, px⟩ := positive t inside
      refine ⟨⟨qty, ?_, products t inside⟩, stamped t inside⟩
      unfold TradeRow.priceOn
      split_ifs <;> omega
    · rw [satAdd_of_nonneg (counts slot).1 (Int.le_refl 0), add_zero, min_eq_left (counts slot).2]

/-- A buy of one and then a sale of four, listed the other way round, from a flat row. -/
theorem two_trades_booked :
    let one : TradeRow := ⟨1, 2000000, 1000000, 10, .bid⟩
    let two : TradeRow := ⟨2, 3000000, 4000000, 20, .ask⟩
    let l := run step (new ⟨0, 0⟩) [.bindInstrument ⟨5, .linear, 0, ownerNone, 0, 0⟩]
    (run bookFill l ([one, two].map fun t => t.fill 5 2 t.timeMs t.tradeId)).day.turnover1e6 2 =
      satAdd 0 (dayIncreasing1e6 [two, one] (-3000000) false 0) := by
  intro one two l
  have prefixes : ∀ done ∈ inits [one, two], InI64 (netOf done) := by decide
  have distinct : ([two, one].map TradeRow.key).Nodup := by decide
  exact (day_read_is_day_booked distinct (by decide)).2 l 5 0 2 0 (-3000000) .linear 0 [one, two] TradeRow.timeMs
    TradeRow.tradeId (Perm.swap ..) (by decide) (by decide) (by decide +kernel) rfl (.inl rfl) (by decide) (by decide)
    (fun done part => prefixes done ((mem_inits ..).mpr part)) (by decide) rfl Day.new_counts (by decide) (.inl rfl)

end Ledger

end TradingEngine.Router
