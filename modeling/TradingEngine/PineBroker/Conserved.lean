import TradingEngine.PineBroker.Book

/-!
# Conservation in the book

Position, fees and money over every run of fills and marks.
-/

namespace TradingEngine.PineBroker
open Base List Closing

/-! ### Sums over the open trades -/

def qtySum (lots : List Lot) : Int := (lots.map fun l => l.qty).sum

def feeSum (lots : List Lot) : Int := (lots.map fun l => l.fee).sum

def costSum (lots : List Lot) : Int := (lots.map fun l => l.qty * l.entryPx).sum

def closedFees (b : Book) : Int := (b.closed.map fun t => t.1.fee).sum

def closedPnl (b : Book) : Int := (b.closed.map fun t => t.1.pnl).sum

def Sided (side : Int) (lots : List Lot) : Prop := ∀ l ∈ lots, 0 < side * l.qty

section Sums

variable {side : Int} {lots pre post : List Lot} {l : Lot}

theorem split_at {i : Nat} (here : lots[i]? = some l) :
    ∃ pre post, lots = pre ++ l :: post ∧ lots.eraseIdx i = pre ++ post ∧ ∀ m, lots.set i m = pre ++ m :: post := by
  obtain ⟨bound, rfl⟩ := List.getElem?_eq_some_iff.mp here
  refine ⟨lots.take i, lots.drop (i + 1), ?_, eraseIdx_eq_take_drop_succ .., fun m => ?_⟩
  · rw [cons_getElem_drop_succ, take_append_drop]
  · rw [set_eq_take_append_cons_drop, if_pos bound]

theorem sum_split (g : Lot → Int) : ((pre ++ l :: post).map g).sum = ((pre ++ post).map g).sum + g l := by
  simp only [map_append, map_cons, sum_append, sum_cons]
  ring

theorem qtySum_split : qtySum (pre ++ l :: post) = qtySum (pre ++ post) + l.qty := sum_split _

theorem feeSum_split : feeSum (pre ++ l :: post) = feeSum (pre ++ post) + l.fee := sum_split _

theorem costSum_split : costSum (pre ++ l :: post) = costSum (pre ++ post) + l.qty * l.entryPx := sum_split _

theorem unit_square (unit : side = 1 ∨ side = -1) : side * side = 1 := by
  rcases unit with rfl | rfl <;> rfl

theorem sign_cases {qty : Int} (filled : qty ≠ 0) : 0 < qty ∧ qty.sign = 1 ∨ qty < 0 ∧ qty.sign = -1 := by
  rcases lt_or_gt_of_ne filled with negative | positive
  · exact .inr ⟨negative, Int.sign_eq_neg_one_of_neg negative⟩
  · exact .inl ⟨positive, Int.sign_eq_one_of_pos positive⟩

section

variable (sided : Sided side lots)

include sided

theorem Sided.abs_sum (unit : side = 1 ∨ side = -1) : (lots.map fun l => |l.qty|).sum = side * qtySum lots := by
  induction lots with
  | nil => simp [qtySum]
  | cons l lots ih =>
    have own := sided l (by simp)
    have rest := ih fun m member => sided m (by simp [member])
    simp only [qtySum, map_cons, sum_cons] at rest ⊢
    rcases unit with rfl | rfl
    · rw [rest, abs_of_pos (by omega)]
      ring
    · rw [rest, abs_of_neg (by omega)]
      ring

theorem Sided.sum_nonneg : 0 ≤ side * qtySum lots := by
  induction lots with
  | nil => simp [qtySum]
  | cons l lots ih =>
    have own := sided l (by simp)
    have rest := ih fun m member => sided m (by simp [member])
    simp only [qtySum, map_cons, sum_cons, mul_add] at rest ⊢
    omega

theorem Sided.eq_nil (flat : side * qtySum lots = 0) : lots = [] := by
  rcases lots with _ | ⟨l, lots⟩
  · rfl
  have own := sided l (by simp)
  have rest := Sided.sum_nonneg (fun m member => sided m (by simp [member]) : Sided side lots)
  simp only [qtySum, map_cons, sum_cons, mul_add] at flat rest
  omega

theorem Sided.total (unit : side = 1 ∨ side = -1) : Sided (qtySum lots) lots := by
  intro l member
  obtain ⟨pre, post, rfl⟩ := append_of_mem member
  have own := sided l member
  have others := Sided.sum_nonneg (fun m among => sided m (by
    simp only [mem_append, mem_cons] at among ⊢
    tauto) : Sided side (pre ++ post))
  have whole : 0 < side * qtySum (pre ++ l :: post) := by
    rw [qtySum_split, mul_add]
    omega
  calc 0 < side * qtySum (pre ++ l :: post) * (side * l.qty) := mul_pos whole own
    _ = side * side * (qtySum (pre ++ l :: post) * l.qty) := by ring
    _ = qtySum (pre ++ l :: post) * l.qty := by rw [unit_square unit, one_mul]

end

end Sums

/-! ### One turn of the closing loop -/

theorem nextToClose_lt {b : Book} (some_trade : b.lots ≠ []) (named : StrKey) :
    b.nextToClose named < b.lots.length := by
  have positive := length_pos_iff.mpr some_trade
  unfold Book.nextToClose
  split
  · split
    · rename_i i found
      exact (findIdx?_eq_some_iff_getElem.mp found).1
    · exact positive
  · exact positive

section Turn

variable {side n : Int} {f : Fill} {c : Closing} {l : Lot}

theorem gross_unit {sign px entryPx k : Int} (exact : Book.grossExact sign px entryPx k e6 = true) :
    gross sign px entryPx k e6 = sign * ((px - entryPx) * k) := by
  have value := of_decide_eq_true exact
  rw [value, Int.mul_tdiv_cancel _ (by decide)]

theorem kept_sums {pre post : List Lot} (gone : l.qty = 0 → l.fee = 0) :
    qtySum (if l.qty = 0 then pre ++ post else pre ++ l :: post) = qtySum (pre ++ post) + l.qty ∧
      feeSum (if l.qty = 0 then pre ++ post else pre ++ l :: post) = feeSum (pre ++ post) + l.fee ∧
      costSum (if l.qty = 0 then pre ++ post else pre ++ l :: post) = costSum (pre ++ post) + l.qty * l.entryPx := by
  by_cases flat : l.qty = 0
  · simp [flat, gone flat]
  · simp only [flat, if_false]
    exact ⟨qtySum_split, feeSum_split, costSum_split⟩

theorem sliceExact_facts : c.sliceExact f l n = true → Book.grossExact l.qty.sign f.px l.entryPx n c.book.pv = true ∧
      (c.slice f l n).fee = Closing.entryShare l n + c.exitShare f n ∧
      (c.slice f l n).pnl = gross l.qty.sign f.px l.entryPx n c.book.pv - (c.slice f l n).fee ∧
      moneyAdd c.book.netprofit (c.slice f l n).pnl = c.book.netprofit + (c.slice f l n).pnl := by
  intro exact
  unfold sliceExact at exact
  simp only [Bool.and_eq_true, decide_eq_true_eq] at exact
  obtain ⟨⟨⟨⟨-, priced⟩, charged⟩, netted⟩, added⟩ := exact
  exact ⟨priced, charged, netted, added⟩

section Close

variable {i : Nat}

theorem closedFees_close : closedFees (c.close f i l).book = closedFees c.book + (c.slice f l (c.taken l)).fee := by
  simp [closedFees, close, booked]

theorem closedPnl_close : closedPnl (c.close f i l).book = closedPnl c.book + (c.slice f l (c.taken l)).pnl := by
  simp [closedPnl, close, booked]

theorem netprofit_close :
    (c.close f i l).book.netprofit = moneyAdd c.book.netprofit (c.slice f l (c.taken l)).pnl := rfl

theorem feeLeft_close : (c.close f i l).feeLeft = c.feeLeft - c.exitShare f (c.taken l) := rfl

theorem exact_close {i : Nat} (exact : (c.close f i l).book.exact = true) :
    c.book.exact = true ∧ c.sliceExact f l (c.taken l) = true := Bool.and_eq_true_iff.mp exact

theorem lots_close {pre post : List Lot} (erased : c.book.lots.eraseIdx i = pre ++ post)
    (replaced : ∀ m, c.book.lots.set i m = pre ++ m :: post) :
    (c.close f i l).book.lots = if (c.rest f l (c.taken l)).qty = 0 then pre ++ post
      else pre ++ c.rest f l (c.taken l) :: post := by
  rw [← erased, ← replaced]
  rfl

end Close

/-- What closing `n` of one side does to the book and the fill's remainder. -/
structure Moved (side : Int) (f : Fill) (o c : Closing) (n : Int) : Prop where
  red : c.redLeft = o.redLeft - n
  left : c.qtyLeft = o.qtyLeft - n
  qty : qtySum c.book.lots = qtySum o.book.lots - side * n
  same : c.book.position = o.book.position ∧ c.book.initial = o.book.initial ∧ c.book.pv = o.book.pv
  before : c.book.exact = true → o.book.exact = true
  fees : c.book.exact = true →
    feeSum c.book.lots + closedFees c.book + c.feeLeft = feeSum o.book.lots + closedFees o.book + o.feeLeft
  profit : c.book.exact = true → c.book.netprofit - closedPnl c.book = o.book.netprofit - closedPnl o.book
  money : c.book.exact = true → o.book.pv = e6 →
    c.book.netprofit - costSum c.book.lots - feeSum c.book.lots - c.feeLeft =
      o.book.netprofit - costSum o.book.lots - feeSum o.book.lots - o.feeLeft + side * n * f.px

theorem Moved.trans {o c' : Closing} {m : Int} (first : Moved side f o c m) (second : Moved side f c c' n) :
    Moved side f o c' (m + n) := by
  refine ⟨?_, ?_, ?_, ?_, fun exact => first.before (second.before exact),
    fun exact => (second.fees exact).trans (first.fees (second.before exact)),
    fun exact => (second.profit exact).trans (first.profit (second.before exact)), fun exact unit_value => ?_⟩
  · rw [second.red, first.red, sub_sub]
  · rw [second.left, first.left, sub_sub]
  · rw [second.qty, first.qty, mul_add, sub_sub]
  · obtain ⟨position, initial, pv⟩ := second.same
    obtain ⟨position', initial', pv'⟩ := first.same
    exact ⟨position.trans position', initial.trans initial', pv.trans pv'⟩
  · rw [second.money exact (first.same.2.2.trans unit_value), first.money (second.before exact) unit_value]
    ring

structure Turned (side : Int) (f : Fill) (c c' : Closing) (n : Int) : Prop where
  positive : 0 < n
  taken : n ≤ c.redLeft
  sided : Sided side c'.book.lots
  whole : c'.redLeft = 0 ∨ c'.book.lots.length + 1 = c.book.lots.length
  spent : n = c.qtyLeft → c'.feeLeft = 0
  moved : Moved side f c c' n

theorem turn_turned (unit : side = 1 ∨ side = -1) (sided : Sided side c.book.lots) (some_trade : c.book.lots ≠ [])
    (more : 0 < c.redLeft) : ∃ n, Turned side f c (c.turn f) n := by
  obtain ⟨l, here⟩ : ∃ l, c.book.lots[c.book.nextToClose f.src.namedEntry]? = some l :=
    ⟨_, getElem?_eq_getElem (nextToClose_lt some_trade _)⟩
  obtain ⟨pre, post, lots, erased, replaced⟩ := split_at here
  have own : 0 < side * l.qty := sided l (by rw [lots]; simp)
  have size : |l.qty| = side * l.qty := by
    rcases unit with rfl | rfl
    · rw [abs_of_pos (by omega)]; ring
    · rw [abs_of_neg (by omega)]; ring
  have sign : l.qty.sign = side := by
    rcases unit with rfl | rfl
    · exact Int.sign_eq_one_of_pos (by omega)
    · exact Int.sign_eq_neg_one_of_neg (by omega)
  have square := unit_square unit
  have turned : c.turn f = c.close f (c.book.nextToClose f.src.namedEntry) l := by simp only [Closing.turn, here]
  have after := @lots_close f c l (c.book.nextToClose f.src.namedEntry) pre post erased replaced
  obtain ⟨n, taken⟩ : ∃ n, c.taken l = n := ⟨_, rfl⟩
  rw [taken] at after
  have le_red : n ≤ c.redLeft := by rw [← taken]; exact min_le_left ..
  have le_qty : n ≤ side * l.qty := by rw [← taken, ← size]; exact min_le_right ..
  have positive : 0 < n := by rw [← taken]; exact lt_min more (by rw [size]; exact own)
  have left_qty : (c.rest f l n).qty = l.qty - side * n := by rw [← sign]; rfl
  have left_fee : (c.rest f l n).fee = l.fee - Closing.entryShare l n := rfl
  have left_side : side * (c.rest f l n).qty = side * l.qty - n := by
    rw [left_qty, mul_sub, ← mul_assoc, square, one_mul]
  have gone : (c.rest f l n).qty = 0 → (c.rest f l n).fee = 0 := by
    intro flat
    have all : n = |l.qty| := by
      rw [flat, mul_zero] at left_side
      rw [size]
      omega
    simp only [Closing.rest, Closing.entryShare, all, if_true, sub_self]
  obtain ⟨qty, fee, cost⟩ := @kept_sums (c.rest f l n) pre post gone
  rw [← after] at qty fee cost
  refine ⟨n, ?_⟩
  rw [turned]
  refine ⟨positive, le_red, ?_, ?_, ?_, by rw [← taken]; rfl, by rw [← taken]; rfl, ?_, ⟨rfl, rfl, rfl⟩, ?_, ?_, ?_, ?_⟩
  · intro m member
    have old : m ∈ pre ++ post → 0 < side * m.qty := fun among => sided m (by
      rw [lots]
      simp only [mem_append, mem_cons] at among ⊢
      tauto)
    rw [after] at member
    split at member
    · exact old member
    rename_i open_
    rcases mem_append.mp member with before | later
    · exact old (mem_append_left _ before)
    rcases mem_cons.mp later with rfl | later
    · have : side * (c.rest f l n).qty ≠ 0 := by rcases unit with rfl | rfl <;> omega
      omega
    · exact old (mem_append_right _ later)
  · by_cases flat : (c.rest f l n).qty = 0
    · right
      rw [after, if_pos flat, lots, length_append, length_append, length_cons]
      omega
    left
    have part : n ≠ |l.qty| := by
      intro all
      apply flat
      rw [left_qty, all, size, ← mul_assoc, square, one_mul, sub_self]
    have : n = c.redLeft := by
      rw [← taken, Closing.taken] at part ⊢
      omega
    simp only [Closing.close, taken]
    omega
  · intro all
    rw [feeLeft_close, taken, Closing.exitShare, if_pos all, sub_self]
  · refine qty.trans ?_
    rw [left_qty, lots, qtySum_split]
    ring
  · intro exact
    exact (exact_close exact).1
  · intro exact
    obtain ⟨-, charged, -, -⟩ := sliceExact_facts (exact_close exact).2
    rw [fee, closedFees_close, feeLeft_close, charged, lots, feeSum_split, taken, left_fee]
    ring
  · intro exact
    obtain ⟨-, -, -, added⟩ := sliceExact_facts (exact_close exact).2
    rw [netprofit_close, closedPnl_close, added]
    ring
  · intro exact unit_value
    obtain ⟨priced, charged, netted, added⟩ := sliceExact_facts (exact_close exact).2
    rw [unit_value, taken] at priced netted
    rw [taken] at charged added
    rw [gross_unit priced, charged, sign] at netted
    rw [fee, cost, netprofit_close, feeLeft_close, taken, added, netted, lots, feeSum_split, costSum_split, left_fee,
      left_qty, show (c.rest f l n).entryPx = l.entryPx from rfl]
    ring

end Turn

/-- What holds between the turns, against the loop's first state `o`. -/
structure Closes (side : Int) (f : Fill) (o c : Closing) : Prop where
  sided : Sided side c.book.lots
  some_left : 0 ≤ c.redLeft
  enough : c.redLeft ≤ side * qtySum c.book.lots
  spent : c.qtyLeft = 0 → c.feeLeft = 0
  moved : Moved side f o c (o.redLeft - c.redLeft)

section Loop

variable {side n : Int} {f : Fill} {o c c' : Closing}

theorem Closes.start (sided : Sided side o.book.lots) (some_left : 0 ≤ o.redLeft)
    (enough : o.redLeft ≤ side * qtySum o.book.lots) (filled : o.qtyLeft ≠ 0) : Closes side f o o :=
  ⟨sided, some_left, enough, fun none => absurd none filled, by omega, by omega, by simp, ⟨rfl, rfl, rfl⟩, id,
    fun _ => rfl, fun _ => rfl, by simp⟩

theorem Closes.turn (unit : side = 1 ∨ side = -1) (closes : Closes side f o c) (turned : Turned side f c c' n) :
    Closes side f o c' := by
  have moved := turned.moved
  refine ⟨turned.sided, ?_, ?_, ?_, ?_⟩
  · rw [moved.red]
    have := turned.taken
    omega
  · rw [moved.red, moved.qty, mul_sub, ← mul_assoc, unit_square unit, one_mul]
    have := closes.enough
    omega
  · intro none
    exact turned.spent (by rw [moved.left] at none; omega)
  · rw [moved.red, sub_sub_eq_add_sub, add_sub_right_comm]
    exact closes.moved.trans moved

theorem loop_done {fuel : Nat} (done : c.redLeft = 0) : Closing.loop f fuel c = c := by
  cases fuel with
  | zero => rfl
  | succ fuel => rw [Closing.loop, if_neg (by omega)]

theorem loop_closes (unit : side = 1 ∨ side = -1) {fuel : Nat} (closes : Closes side f o c)
    (enough : c.book.lots.length ≤ fuel) :
    Closes side f o (Closing.loop f fuel c) ∧ (Closing.loop f fuel c).redLeft = 0 := by
  induction fuel generalizing c with
  | zero =>
    have none : c.book.lots = [] := length_eq_zero_iff.mp (Nat.le_zero.mp enough)
    have le := closes.enough
    have some_left := closes.some_left
    rw [none] at le
    simp only [qtySum, map_nil, sum_nil, mul_zero] at le
    exact ⟨closes, by simp only [Closing.loop]; omega⟩
  | succ fuel ih =>
    rw [Closing.loop]
    split
    · rename_i more
      have some_trade : c.book.lots ≠ [] := by
        intro none
        have le := closes.enough
        rw [none] at le
        simp only [qtySum, map_nil, sum_nil, mul_zero] at le
        omega
      obtain ⟨n, turned⟩ := @turn_turned _ f _ unit closes.sided some_trade more
      have next := closes.turn unit turned
      rcases turned.whole with done | shorter
      · rw [loop_done done]
        exact ⟨next, done⟩
      · exact ih next (by omega)
    · exact ⟨closes, by have := closes.some_left; omega⟩

end Loop

/-! ### Marks -/

section Mark

variable {b : Book} {px : Int} {skip : Option Nat}

theorem markLot_kept (pv px : Int) (sampled : Bool) (l : Lot) :
    (Book.markLot pv px sampled l).qty = l.qty ∧ (Book.markLot pv px sampled l).fee = l.fee ∧
      (Book.markLot pv px sampled l).entryPx = l.entryPx ∧
      (Book.markLot pv px sampled l).pnl = openProfit l.toTradeRec px pv := by
  cases sampled <;> exact ⟨rfl, rfl, rfl, rfl⟩

theorem mark_sum {g h : Lot → Int} (same : ∀ l sampled, g (Book.markLot b.pv px sampled l) = h l) :
    ((b.markSkip px skip).lots.map g).sum = (b.lots.map h).sum := by
  have lots : (b.markSkip px skip).lots = b.lots.mapIdx fun i l => Book.markLot b.pv px (skip ≠ some i) l := rfl
  rw [lots]
  congr 1
  refine ext_getElem (by simp) fun i _ _ => ?_
  simp [same]

theorem mark_qtySum : qtySum (b.markSkip px skip).lots = qtySum b.lots := mark_sum fun _ _ => (markLot_kept ..).1

theorem mark_feeSum : feeSum (b.markSkip px skip).lots = feeSum b.lots := mark_sum fun _ _ => (markLot_kept ..).2.1

theorem mark_costSum : costSum (b.markSkip px skip).lots = costSum b.lots := mark_sum fun l sampled => by
    obtain ⟨qty, -, entry, -⟩ := markLot_kept b.pv px sampled l
    rw [qty, entry]

theorem mark_sided {side : Int} (sided : Sided side b.lots) : Sided side (b.markSkip px skip).lots := by
  intro m member
  obtain ⟨i, bound, rfl⟩ := mem_mapIdx.mp member
  rw [(markLot_kept ..).1]
  exact sided _ (getElem_mem bound)

theorem sumOpen_exact {pnls : List Int} (exact : (Book.sumOpen pnls).2 = true) : (Book.sumOpen pnls).1 = pnls.sum := by
  have grow : ∀ (pnls : List Int) (start : Int × Bool),
      (pnls.foldl (fun s p => (moneyAdd s.1 p, s.2 && decide (moneyAdd s.1 p = s.1 + p))) start).2 = true → start.2 = true ∧
        (pnls.foldl (fun s p => (moneyAdd s.1 p, s.2 && decide (moneyAdd s.1 p = s.1 + p))) start).1 =
          start.1 + pnls.sum := by
    intro pnls
    induction pnls with
    | nil => exact fun start exact => ⟨exact, by simp⟩
    | cons p pnls ih =>
      intro start exact
      rw [foldl_cons] at exact ⊢
      obtain ⟨both, total⟩ := ih _ exact
      obtain ⟨before, added⟩ := Bool.and_eq_true_iff.mp both
      refine ⟨before, ?_⟩
      rw [total, of_decide_eq_true added, sum_cons]
      ring
  simpa [Book.sumOpen] using (grow pnls (0, true) exact).2

theorem mark_exact (exact : (b.markSkip px skip).exact = true) :
    b.exact = true ∧ (b.markSkip px skip).openprofit = (b.lots.map fun l => openProfit l.toTradeRec px b.pv).sum ∧
      ∀ l ∈ b.lots, Book.markExact b.pv px l = true := by
  obtain ⟨both, lots⟩ := Bool.and_eq_true_iff.mp exact
  obtain ⟨before, total⟩ := Bool.and_eq_true_iff.mp both
  refine ⟨before, (sumOpen_exact total).trans ?_, all_eq_true.mp lots⟩
  exact mark_sum fun _ _ => (markLot_kept ..).2.2.2

theorem mark_openprofit (unit_value : b.pv = e6) (exact : (b.markSkip px skip).exact = true) :
    (b.markSkip px skip).openprofit = qtySum b.lots * px - costSum b.lots - feeSum b.lots := by
  obtain ⟨-, total, each⟩ := mark_exact exact
  rw [total, unit_value]
  rw [unit_value] at each
  generalize b.lots = lots at each
  induction lots with
  | nil => simp [qtySum, costSum, feeSum]
  | cons l lots ih =>
    obtain ⟨priced, netted⟩ := Bool.and_eq_true_iff.mp (each l (by simp))
    have rest := ih fun m member => each m (by simp [member])
    simp only [qtySum, costSum, feeSum, map_cons, sum_cons] at rest ⊢
    rw [rest, of_decide_eq_true netted, gross_unit priced, mul_left_comm, Int.sign_mul_abs]
    ring

end Mark

/-! ### A fill -/

/-- The book against what was paid: `paid` in fees and `cash`, the sum of quantity times price, of the fills so far. -/
structure Accounts (b : Book) (paid cash : Int) : Prop where
  qty : qtySum b.lots = b.position
  sided : Sided b.position b.lots
  fees : b.exact = true → feeSum b.lots + closedFees b = paid
  profit : b.exact = true → b.netprofit = closedPnl b
  money : b.exact = true → b.pv = e6 → b.netprofit - costSum b.lots - feeSum b.lots = -cash - paid

def Marked (b : Book) : Prop :=
  b.exact = true → b.pv = e6 → b.openprofit = b.position * b.markPx - costSum b.lots - feeSum b.lots

section Fill

variable {b : Book} {f : Fill} {paid cash : Int}

variable (capital pv : Int) (closeAny : Bool) (position : Int)

theorem Accounts.new : Accounts (Book.new capital pv closeAny) 0 0 := by
  constructor <;> simp [Book.new, qtySum, costSum, feeSum, closedFees, closedPnl, Sided]

theorem Accounts.markSkip (accounts : Accounts b paid cash) (px : Int) (skip : Option Nat) :
    Accounts (b.markSkip px skip) paid cash := by
  have before : (b.markSkip px skip).exact = true → b.exact = true := fun exact => (mark_exact exact).1
  refine ⟨mark_qtySum.trans accounts.qty, mark_sided accounts.sided, fun exact => ?_, fun exact => ?_,
    fun exact unit_value => ?_⟩
  · rw [mark_feeSum]
    exact accounts.fees (before exact)
  · exact accounts.profit (before exact)
  · rw [mark_feeSum, mark_costSum]
    exact accounts.money (before exact) unit_value

theorem Accounts.marked (accounts : Accounts b paid cash) (px : Int) (skip : Option Nat) :
    Marked (b.markSkip px skip) := by
  intro exact unit_value
  have unit_value' : b.pv = e6 := unit_value
  rw [mark_openprofit unit_value' exact, mark_feeSum, mark_costSum, accounts.qty]
  rfl

theorem Marked.new : Marked (Book.new capital pv closeAny) := by
  intro _ _
  simp [Book.new, costSum, feeSum]

def sideOf (position : Int) : Int := if position < 0 then -1 else 1

theorem sideOf_unit : sideOf position = 1 ∨ sideOf position = -1 := by
  unfold sideOf
  split <;> simp

theorem sideOf_mul : sideOf position * position = |position| := by
  unfold sideOf
  split
  · rw [abs_of_neg (by omega)]; ring
  · rw [abs_of_nonneg (by omega)]; ring

theorem Accounts.side (accounts : Accounts b paid cash) : Sided (sideOf b.position) b.lots := by
  intro l member
  have own := accounts.sided l member
  unfold sideOf
  rcases mul_pos_iff.mp own with ⟨long, same⟩ | ⟨short, same⟩
  · rw [if_neg (by omega)]
    omega
  · rw [if_pos short]
    omega

theorem reduced_cases (filled : f.qty ≠ 0) :
    (b.reduced f.qty = 0 ∧ (b.position = 0 ∨ f.qty.sign = sideOf b.position)) ∨
      (b.reduced f.qty = min |f.qty| |b.position| ∧ b.position ≠ 0 ∧ f.qty.sign = -sideOf b.position) := by
  have sign := sign_cases filled
  unfold Book.reduced sideOf
  split
  · rename_i against
    right
    obtain ⟨some_position, other⟩ := against
    refine ⟨rfl, some_position, ?_⟩
    rcases sign with ⟨bought, sign⟩ | ⟨sold, sign⟩
    · have : ¬0 < b.position := by simpa [bought] using other
      rw [sign, if_pos (by omega)]
      rfl
    · have : 0 < b.position := by simpa [show ¬0 < f.qty by omega] using other
      rw [sign, if_neg (by omega)]
  · rename_i along
    left
    refine ⟨rfl, ?_⟩
    by_cases flat : b.position = 0
    · exact .inl flat
    right
    have same : decide (0 < f.qty) = decide (0 < b.position) := by
      by_contra other
      exact along ⟨flat, other⟩
    rcases sign with ⟨bought, sign⟩ | ⟨sold, sign⟩
    · have : 0 < b.position := by simpa [bought] using same
      rw [sign, if_neg (by omega)]
    · have : ¬0 < b.position := by simpa [show ¬0 < f.qty by omega] using same
      rw [sign, if_pos (by omega)]

theorem closePart_closes (accounts : Accounts b paid cash) (filled : f.qty ≠ 0) :
    Closes (sideOf b.position) f ⟨b, f.fee, |f.qty|, b.reduced f.qty, if 0 < b.reduced f.qty then b.openFees else 0⟩
        (b.closePart f) ∧ (b.closePart f).redLeft = 0 := by
  have bounds : 0 ≤ b.reduced f.qty ∧ b.reduced f.qty ≤ |b.position| := by
    have := abs_nonneg b.position
    have := abs_nonneg f.qty
    rcases @reduced_cases b f filled with ⟨none, -⟩ | ⟨most, -, -⟩ <;> omega
  refine loop_closes (sideOf_unit _) (Closes.start accounts.side bounds.1 ?_ (abs_ne_zero.mpr filled)) le_rfl
  simp only [accounts.qty, sideOf_mul]
  exact bounds.2

theorem openPart_sums {c : Closing} {opens : Int} (some_opens : 0 ≤ opens) (spent : opens = 0 → c.feeLeft = 0) :
    qtySum (Book.openPart c f opens).lots = qtySum c.book.lots + f.qty.sign * opens ∧
      feeSum (Book.openPart c f opens).lots = feeSum c.book.lots + c.feeLeft ∧
      costSum (Book.openPart c f opens).lots = costSum c.book.lots + f.qty.sign * opens * f.px := by
  unfold Book.openPart
  split
  · simp [qtySum, feeSum, costSum, Book.opened]
  · have none : opens = 0 := by omega
    simp [none, spent none]

theorem openPart_same (c : Closing) (f : Fill) (opens : Int) :
    (Book.openPart c f opens).exact = c.book.exact ∧ (Book.openPart c f opens).pv = c.book.pv ∧
      (Book.openPart c f opens).netprofit = c.book.netprofit ∧ (Book.openPart c f opens).closed = c.book.closed := by
  unfold Book.openPart
  split <;> exact ⟨rfl, rfl, rfl, rfl⟩

theorem Sided.nil (side : Int) : Sided side [] := fun _ member => absurd member not_mem_nil

theorem closed_along {lots : List Lot} (accounts : Accounts b paid cash) (filled : f.qty ≠ 0)
    (sided : Sided (sideOf b.position) lots) (qty : qtySum lots = qtySum b.lots - sideOf b.position * b.reduced f.qty)
    (opens : 0 < |f.qty| - b.reduced f.qty) : Sided f.qty.sign lots := by
  have flat : sideOf b.position * qtySum lots = 0 → Sided f.qty.sign lots := by
    intro flat
    rw [sided.eq_nil flat]
    exact Sided.nil _
  rw [accounts.qty] at qty
  rcases @reduced_cases b f filled with ⟨none, nothing | same⟩ | ⟨most, -, -⟩
  · exact flat (by rw [qty, none, nothing]; simp)
  · rwa [same]
  have all : b.reduced f.qty = |b.position| := by omega
  refine flat ?_
  rw [qty, all, mul_sub, ← mul_assoc, unit_square (sideOf_unit _), sideOf_mul]
  ring

theorem sign_unit (filled : f.qty ≠ 0) : f.qty.sign = 1 ∨ f.qty.sign = -1 := (sign_cases filled).imp And.right And.right

theorem openPart_sided {c : Closing} {opens : Int} (filled : f.qty ≠ 0) (sided : Sided (sideOf b.position) c.book.lots)
    (along : 0 < opens → Sided f.qty.sign c.book.lots) :
    ∃ side : Int, (side = 1 ∨ side = -1) ∧ Sided side (Book.openPart c f opens).lots := by
  unfold Book.openPart
  split
  · rename_i more
    refine ⟨_, sign_unit filled, fun m member => ?_⟩
    rcases mem_append.mp member with old | new
    · exact along more m old
    · rw [mem_singleton.mp new, show (c.book.opened f (f.qty.sign * opens) c.feeLeft).qty = f.qty.sign * opens from rfl,
        ← mul_assoc, unit_square (sign_unit filled), one_mul]
      exact more
  · exact ⟨_, sideOf_unit _, sided⟩

theorem parts_accounts (accounts : Accounts b paid cash) (filled : f.qty ≠ 0) :
    Accounts ((Book.openPart (b.closePart f) f (|f.qty| - b.reduced f.qty)).settle f (b.position + f.qty))
      (paid + f.fee) (cash + f.qty * f.px) := by
  obtain ⟨closes, done⟩ := closePart_closes accounts filled
  generalize b.closePart f = c at closes done
  obtain ⟨sided, -, -, spent, -, left, qty, ⟨-, -, pv⟩, before, fees, profit, money⟩ := closes
  simp only [done, sub_zero] at left qty fees profit money
  have some_opens : 0 ≤ |f.qty| - b.reduced f.qty := by
    have := abs_nonneg f.qty
    rcases @reduced_cases b f filled with ⟨none, -⟩ | ⟨most, -, -⟩ <;> omega
  obtain ⟨qty', fee', cost'⟩ := @openPart_sums f c _ some_opens fun none => spent (left.trans none)
  obtain ⟨exact', pv', netprofit', closed'⟩ := openPart_same c f (|f.qty| - b.reduced f.qty)
  have size : f.qty.sign * |f.qty| = f.qty := Int.sign_mul_abs f.qty
  have cancels : (sideOf b.position + f.qty.sign) * b.reduced f.qty = 0 := by
    rcases @reduced_cases b f filled with ⟨none, -⟩ | ⟨-, -, against⟩
    · rw [none, mul_zero]
    · rw [against, add_neg_cancel, zero_mul]
  have total : qtySum (Book.openPart c f (|f.qty| - b.reduced f.qty)).lots = b.position + f.qty := by
    rw [qty', qty, accounts.qty]
    linear_combination size - cancels
  refine ⟨total, ?_, fun exact => ?_, fun exact => ?_, fun exact unit_value => ?_⟩
  · obtain ⟨side, unit, one_side⟩ := openPart_sided filled sided (closed_along accounts filled sided qty)
    have := one_side.total unit
    rwa [total] at this
  · have exact : c.book.exact = true := exact'.symm.trans exact
    have paid_before := accounts.fees (before exact)
    have carried := fees exact
    simp only [Book.settle, closedFees, closed', fee'] at carried paid_before ⊢
    linear_combination carried + paid_before
  · have exact : c.book.exact = true := exact'.symm.trans exact
    have before := accounts.profit (before exact)
    have carried := profit exact
    simp only [Book.settle, closedPnl, closed', netprofit'] at carried before ⊢
    linear_combination carried + before
  · have exact : c.book.exact = true := exact'.symm.trans exact
    have unit_value : b.pv = e6 := pv.symm.trans (pv'.symm.trans unit_value)
    have owed := accounts.money (before exact) unit_value
    have carried := money exact unit_value
    simp only [Book.settle, netprofit', fee', cost'] at carried owed ⊢
    linear_combination carried + owed + f.px * cancels - f.px * size

theorem openAbsSum_eq (accounts : Accounts b paid cash) : b.openAbsSum = |b.position| := by
  rw [Book.openAbsSum, accounts.side.abs_sum (sideOf_unit _), accounts.qty, sideOf_mul]

theorem reduced_le (b : Book) (q : Int) : b.reduced q ≤ |b.position| := by
  have := abs_nonneg b.position
  unfold Book.reduced
  split <;> omega

theorem applyFill_cases (accounts : Accounts b paid cash) (f : Fill) :
    (∃ e, b.applyFill f = (.error e, b) ∧ e ≠ .lotUnderflow) ∨ (f.qty = 0 ∧ b.applyFill f = (.ok (), b)) ∨
      (f.qty ≠ 0 ∧ ∃ b', b.applyFill f = (.ok (), b') ∧ Accounts b' (paid + f.fee) (cash + f.qty * f.px) ∧ Marked b' ∧
        b'.pv = b.pv) := by
  unfold Book.applyFill
  split
  · rename_i nothing
    exact .inr (.inl ⟨nothing, rfl⟩)
  rename_i filled
  split
  · rename_i e refused
    refine .inl ⟨e, rfl, ?_⟩
    rintro rfl
    unfold Book.refusal at refused
    rw [openAbsSum_eq accounts, if_neg (not_lt.mpr (reduced_le b f.qty))] at refused
    split_ifs at refused <;> cases refused
  · refine .inr (.inr ⟨filled, _, rfl, ?_, ?_, ?_⟩)
    · exact (parts_accounts accounts filled).markSkip _ _
    · exact (parts_accounts accounts filled).marked _ _
    · exact (openPart_same ..).2.1.trans (closePart_closes accounts filled).1.moved.same.2.2

end Fill

/-! ### Runs -/

inductive BookOp where
  | fill (f : Fill)
  | mark (px : Int)
  deriving DecidableEq, Repr

def Book.step (b : Book) : BookOp → Book
  | .fill f => (b.applyFill f).2
  | .mark px => b.mark px

def Book.traded : Book → List BookOp → List Fill
  | _, [] => []
  | b, .mark px :: rest => traded (b.mark px) rest
  | b, .fill f :: rest =>
    match b.applyFill f with
    | (.error _, b') => traded b' rest
    | (.ok _, b') => if f.qty = 0 then traded b' rest else f :: traded b' rest

def feesOf (fills : List Fill) : Int := (fills.map fun f => f.fee).sum

def cashOf (fills : List Fill) : Int := (fills.map fun f => f.qty * f.px).sum

theorem run_accounts {b : Book} {paid cash : Int} (accounts : Accounts b paid cash) (marked : Marked b) (ops : List BookOp) :
    Accounts (run Book.step b ops) (paid + feesOf (b.traded ops)) (cash + cashOf (b.traded ops)) ∧
      Marked (run Book.step b ops) ∧ (run Book.step b ops).pv = b.pv := by
  induction ops generalizing b paid cash with
  | nil => exact ⟨by simpa [run, Book.traded, feesOf, cashOf] using accounts, marked, rfl⟩
  | cons op rest ih =>
    cases op with
    | mark px => exact ih (accounts.markSkip px none) (accounts.marked px none)
    | fill f =>
      rw [run, Book.step, Book.traded]
      rcases applyFill_cases accounts f with ⟨e, refused, -⟩ | ⟨nothing, same⟩ | ⟨filled, b', accepted, accounts', marked', value⟩
      · rw [refused]
        exact ih accounts marked
      · rw [same]
        simp only [nothing, if_true]
        exact ih accounts marked
      rw [accepted]
      simp only [filled, if_false]
      have onward := ih accounts' marked'
      rw [value] at onward
      simp only [feesOf, cashOf, map_cons, sum_cons] at onward ⊢
      rwa [add_assoc, add_assoc] at onward

/-- Position, fees and money over every run without saturation. -/
theorem book_conserves (capital pv : Int) (closeAny : Bool) (ops : List BookOp) (b : Book)
    (reached : run Book.step (Book.new capital pv closeAny) ops = b) (exact : b.exact = true) :
    (b.position = qtySum b.lots ∧ (∀ l ∈ b.lots, l.qty ≠ 0 ∧ l.qty.sign = b.position.sign) ∧
        ∀ f, (b.applyFill f).1 ≠ .error .lotUnderflow) ∧
      feeSum b.lots + closedFees b = feesOf ((Book.new capital pv closeAny).traded ops) ∧
      b.netprofit = closedPnl b ∧
      (pv = e6 →
        b.initial + b.netprofit + b.openprofit =
          b.initial - cashOf ((Book.new capital pv closeAny).traded ops) + b.position * b.markPx -
            feesOf ((Book.new capital pv closeAny).traded ops)) ∧
      ∀ f e, (b.applyFill f).1 = .error e → (b.applyFill f).2 = b := by
  obtain ⟨accounts, marked, value⟩ := run_accounts (Accounts.new capital pv closeAny) (Marked.new capital pv closeAny) ops
  rw [reached, zero_add, zero_add] at accounts
  rw [reached] at marked value
  refine ⟨⟨accounts.qty.symm, fun l member => ?_, fun f refused => ?_⟩, accounts.fees exact, accounts.profit exact,
    fun unit_value => ?_, fun f e refused => ?_⟩
  · rcases mul_pos_iff.mp (accounts.sided l member) with ⟨long, own⟩ | ⟨short, own⟩
    · exact ⟨own.ne', by rw [Int.sign_eq_one_of_pos own, Int.sign_eq_one_of_pos long]⟩
    · exact ⟨own.ne, by rw [Int.sign_eq_neg_one_of_neg own, Int.sign_eq_neg_one_of_neg short]⟩
  · rcases applyFill_cases accounts f with ⟨e, same, other⟩ | ⟨-, same⟩ | ⟨-, b', same, -⟩ <;> rw [same] at refused <;>
      cases refused
    exact other rfl
  · have value : b.pv = e6 := value.trans unit_value
    linear_combination accounts.money exact value + marked exact value
  · rcases applyFill_cases accounts f with ⟨_, same, -⟩ | ⟨-, same⟩ | ⟨-, b', same, -⟩
    · rw [same]
    · rw [same]
    · rw [same] at refused
      cases refused

def plainSrc (id : StrKey) : FillSrc := ⟨id, id, StrKey.none, 0, 0, true, ⟨true, false, false⟩⟩

def plainFill (qty px fee : Int) : Fill := ⟨qty, px, fee, plainSrc 1, 0, 0, .none⟩

def reversal : List BookOp := [.fill (plainFill 3000000 100 7), .fill (plainFill (-5000000) 110 9), .mark 105]

theorem reversal_conserves :
    (run Book.step (Book.new 1000 e6 false) reversal).position = -2000000 ∧
      feeSum (run Book.step (Book.new 1000 e6 false) reversal).lots +
        closedFees (run Book.step (Book.new 1000 e6 false) reversal) = 16 :=
  have conserved := book_conserves 1000 e6 false reversal _ rfl (by decide +kernel)
  ⟨by decide +kernel, conserved.2.1.trans (by decide +kernel)⟩

/-- A fill of no quantity is accepted and its fee is dropped. -/
theorem zero_fill_drops_its_fee :
    ((Book.new 1000 e6 false).applyFill (plainFill 0 100 7)).1 = .ok () ∧
      ((Book.new 1000 e6 false).applyFill (plainFill 0 100 7)).2.exact = true ∧
      feeSum ((Book.new 1000 e6 false).applyFill (plainFill 0 100 7)).2.lots +
        closedFees ((Book.new 1000 e6 false).applyFill (plainFill 0 100 7)).2 ≠ (plainFill 0 100 7).fee := by
  decide +kernel

end TradingEngine.PineBroker
