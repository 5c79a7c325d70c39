import TradingEngine.Router.Ledger

/-!
# Day turnover is never wiped or rolled back

Fills stamped with wall time, the monotonic clock, the venue's own day total and the perp seed all write the day's
epoch and turnover.
-/

namespace TradingEngine.Router

open Base CoreTypes Function

namespace Day

variable {d : Day}

def carried (old new : Nat) (turnover : Int) : Int := if old < new then 0 else turnover

def Counts (d : Day) : Prop := ∀ s, 0 ≤ d.turnover1e6 s ∧ d.turnover1e6 s ≤ i64Max

/-- The day moves on: the epoch does not fall, and a slot keeps its turnover and `add s` more, or
that much alone after a new epoch. -/
structure Grows (d d' : Day) (add : Nat → Int) : Prop where
  epoch : d.epoch ≤ d'.epoch
  counts : d'.Counts
  covers : ∀ s, min (carried d.epoch d'.epoch (d.turnover1e6 s) + add s) i64Max ≤ d'.turnover1e6 s

theorem new_counts : new.Counts := fun _ => ⟨Int.le_refl 0, show (0 : Int) ≤ i64Max by decide⟩

theorem Counts.grows (h : d.Counts) : Grows d d fun _ => 0 := by
  refine ⟨Nat.le_refl _, h, fun s => ?_⟩
  rw [carried, if_neg (Nat.lt_irrefl _)]
  omega

theorem rollDay_grows (h : d.Counts) (wallNs : Nat) : Grows d (d.rollDay wallNs) fun _ => 0 := by
  unfold rollDay
  split
  · exact h.grows
  dsimp only
  split
  · -- the first stamp names the day and keeps what was booked before it
    rename_i first
    refine ⟨first ▸ Nat.zero_le _, h, fun s => ?_⟩
    obtain ⟨nonneg, _⟩ := h s
    unfold carried
    dsimp only
    split <;> omega
  · split
    · rename_i later
      refine ⟨Nat.le_of_lt later, fun _ => ⟨Int.le_refl 0, show (0 : Int) ≤ i64Max by decide⟩, fun s => ?_⟩
      rw [carried, if_pos later]
      exact min_le_left _ _
    · exact h.grows

theorem Grows.addTurnover {d' : Day} (grown : Grows d d' fun _ => 0) (slot : Nat) {add : Int} (nonneg : 0 ≤ add) :
    Grows d (d'.addTurnover slot add) fun s => if s = slot then add else 0 := by
  have after := grown.counts
  have sum := satAdd_of_nonneg (after slot).1 nonneg
  refine ⟨grown.epoch, fun s => ?_, fun s => ?_⟩
  · change 0 ≤ update d'.turnover1e6 slot _ s ∧ update d'.turnover1e6 slot _ s ≤ i64Max
    rw [update_apply]
    split
    · have := (after slot).1
      rw [sum]
      simp only [i64Max]
      omega
    · exact after s
  · change min (carried d.epoch d'.epoch _ + _) _ ≤ update d'.turnover1e6 slot _ s
    have covers := grown.covers s
    by_cases own : s = slot
    · subst own
      rw [update_self, if_pos rfl, sum]
      omega
    · rw [update_of_ne own, if_neg own]
      exact covers

theorem Grows.weaken {d' : Day} {add : Nat → Int} (grown : Grows d d' add) (nonneg : ∀ s, 0 ≤ add s) :
    Grows d d' fun _ => 0 := by
  refine ⟨grown.epoch, grown.counts, fun s => ?_⟩
  have := grown.covers s
  have := nonneg s
  omega

theorem Grows.raise {d' : Day} (grown : Grows d d' fun _ => 0) {slot : Nat} {bought : Int} (word : bought ≤ i64Max)
    (more : bought > d'.turnover1e6 slot) :
    Grows d { d' with turnover1e6 := update d'.turnover1e6 slot bought } fun _ => 0 := by
  have after := grown.counts
  have rises : ∀ s, d'.turnover1e6 s ≤ update d'.turnover1e6 slot bought s := by
    intro s
    rw [update_apply]
    split
    · subst s
      omega
    · exact Int.le_refl _
  refine ⟨grown.epoch, fun s => ⟨(after s).1.trans (rises s), ?_⟩, fun s => (grown.covers s).trans (rises s)⟩
  change update d'.turnover1e6 slot bought s ≤ i64Max
  rw [update_apply]
  split
  · exact word
  · exact (after s).2

theorem Grows.addPerpOpen {d' : Day} {add : Nat → Int} (grown : Grows d d' add) (slot : Nat) (open' : Int) :
    Grows d (d'.addPerpOpen slot open') add := ⟨grown.epoch, grown.counts, grown.covers⟩

theorem adopt_grows (h : d.Counts) (slot day : Nat) {bought : Int} (word : bought ≤ i64Max) :
    Grows d (d.adoptVenueDayTurnover slot day bought) fun _ => 0 := by
  unfold adoptVenueDayTurnover
  split
  · exact h.grows
  split
  · exact h.grows
  have rolled := rollDay_grows h (min (day * dayNs) u64Max)
  dsimp only
  split
  · rename_i more
    exact rolled.raise word more
  · exact rolled

end Day

namespace Ledger

/-- The notional a fill counts for its slot: a family buy, unless its row has settled, or the
increasing part of an instrument trade; nothing for a position adopted at boot. -/
def countedNotional (l : Ledger) (fill : Fill) : Int :=
  if fill.adopted then 0
  else
    match l.inst.instFind fill.sym with
    | some i =>
      if fill.settlement then 0 else (l.inst.rows i).turnoverOf fill.strategyId fill.qty fill.buy fill.px
    | none =>
      if fill.buy && !(l.rows.bookLeg fill.strategyId fill.sym fill.qty fill.buy).2.any (·.onSettledRow) then
        fillNotional1e6 fill
      else 0

/-- What a call counts for a slot. -/
def countedBy (l : Ledger) (op : Op) (s : Nat) : Int :=
  match op with
  | .bookFill fill =>
    if fill.origin = .venue ∧ fill.strategyId < execSlots ∧ s = fill.strategyId then l.countedNotional fill else 0
  | _ => 0

/-- Fills have no negative price or quantity, and a venue's total is a word. -/
def Op.DayClean : Op → Prop
  | .bookFill fill => 0 ≤ fill.px ∧ 0 ≤ fill.qty
  | .adoptVenueDayTurnover _ _ bought => bought ≤ i64Max
  | _ => True

theorem fillNotional_nonneg {fill : Fill} (px : 0 ≤ fill.px) (qty : 0 ≤ fill.qty) : 0 ≤ fillNotional1e6 fill := by
  unfold fillNotional1e6 notional1e6
  dsimp only
  split
  · exact Int.tdiv_nonneg (Int.mul_nonneg px qty) (by decide)
  · decide

theorem turnoverOf_nonneg (r : InstrumentRow) (slot : Nat) (qty : Int) (buy : Bool) (px : Int) :
    0 ≤ r.turnoverOf slot qty buy px := by
  unfold InstrumentRow.turnoverOf
  dsimp only
  split <;> exact mul1e6_nonneg _ _

variable {l : Ledger}

theorem countedBy_none {fill : Fill} (none : fill.origin ≠ .venue ∨ fill.strategyId ≥ execSlots) :
    l.countedBy (.bookFill fill) = fun _ => 0 := by
  funext s
  refine if_neg fun counted => ?_
  rcases none with foreign | unknown
  · exact foreign counted.1
  · omega

theorem countedBy_fill {fill : Fill} (venue : fill.origin = .venue) (known : fill.strategyId < execSlots) :
    l.countedBy (.bookFill fill) = fun s => if s = fill.strategyId then l.countedNotional fill else 0 := by
  funext s
  simp [countedBy, venue, known]

theorem bookInstrumentFill_grows (h : l.day.Counts) {i : Nat} {fill : Fill} (found : l.inst.instFind fill.sym = some i) :
    Day.Grows l.day ({ l with day := l.day.rollDay fill.tsNs }.bookInstrumentFill i fill fill.strategyId).day
      fun s => if s = fill.strategyId then l.countedNotional fill else 0 := by
  have rolled := Day.rollDay_grows h fill.tsNs
  have counted : l.countedNotional fill = if fill.settlement then 0
      else if fill.adopted then 0 else (l.inst.rows i).turnoverOf fill.strategyId fill.qty fill.buy fill.px := by
    unfold countedNotional
    rw [found]
    cases fill.adopted <;> cases fill.settlement <;> rfl
  have nonneg : 0 ≤ if fill.adopted then 0
      else (l.inst.rows i).turnoverOf fill.strategyId fill.qty fill.buy fill.px := by
    split
    · exact Int.le_refl 0
    · exact turnoverOf_nonneg _ _ _ _ _
  have grown := rolled.addTurnover fill.strategyId nonneg
  rw [counted, bookInstrumentFill]
  cases fill.settlement with
  | true => simpa using rolled
  | false =>
    dsimp only
    simp only [Bool.false_eq_true, if_false]
    split
    · exact grown.addPerpOpen _ _
    · exact grown

theorem bookFamilyFill_grows (h : l.day.Counts) {fill : Fill} (missing : l.inst.instFind fill.sym = none)
    (clean : 0 ≤ fill.px ∧ 0 ≤ fill.qty) :
    Day.Grows l.day ({ l with day := l.day.rollDay fill.tsNs }.bookFamilyFill fill fill.strategyId).day
      fun s => if s = fill.strategyId then l.countedNotional fill else 0 := by
  have rolled := Day.rollDay_grows h fill.tsNs
  have grown := rolled.addTurnover fill.strategyId (fillNotional_nonneg clean.1 clean.2)
  have counted : l.countedNotional fill =
      if fill.buy && !(l.rows.bookLeg fill.strategyId fill.sym fill.qty fill.buy).2.any (·.onSettledRow) && !fill.adopted
      then fillNotional1e6 fill else 0 := by
    unfold countedNotional
    rw [missing]
    cases fill.adopted <;> simp
  rw [counted, bookFamilyFill]
  dsimp only
  split
  · exact grown
  · simpa using rolled

theorem step_grows (h : l.day.Counts) (op : Op) (clean : op.DayClean) :
    Day.Grows l.day (l.step op).day (l.countedBy op) := by
  cases op with
  | bookFill fill =>
    change Day.Grows l.day (l.bookFill fill).day _
    have rolled := Day.rollDay_grows h fill.tsNs
    rcases l.bookFill_cases fill with ⟨foreign, same⟩ | ⟨_, unknown, _, same⟩ | ⟨venue, known, i, found, booked⟩ |
      ⟨venue, known, missing, booked⟩
    · rw [same, countedBy_none (.inl foreign)]
      exact h.grows
    · rw [same, countedBy_none (.inr unknown)]
      exact rolled
    · rw [booked, countedBy_fill venue known]
      exact bookInstrumentFill_grows h found
    · rw [booked, countedBy_fill venue known]
      exact bookFamilyFill_grows h missing clean
  | seedPerp sym pos avgPx dayOpen =>
    change Day.Grows l.day (l.seedPerp sym pos avgPx dayOpen).1.day fun _ => 0
    rcases l.seedPerp_cases sym pos avgPx dayOpen with same | ⟨i, _, _, nonneg, _, seeded⟩
    · rw [same]
      exact h.grows
    rw [seeded]
    refine ((h.grows.addTurnover (l.inst.rows i).owner nonneg).weaken fun s => ?_).addPerpOpen _ _
    split
    · exact nonneg
    · exact Int.le_refl 0
  | observeMonoClock monoNs =>
    change Day.Grows l.day (l.observeMonoClock monoNs).day fun _ => 0
    unfold observeMonoClock
    split
    · exact h.grows
    · exact Day.rollDay_grows h _
  | adoptVenueDayTurnover slot day bought => exact Day.adopt_grows h slot day clean
  | bind venue family outcome yes =>
    change Day.Grows l.day (l.bind venue family outcome yes).day fun _ => 0
    rw [(l.bind_sameBooks venue family outcome yes).day]
    exact h.grows
  | settle venue family outcome =>
    change Day.Grows l.day (l.settle venue family outcome).day fun _ => 0
    rw [(l.settle_sameBooks venue family outcome).day]
    exact h.grows
  | markSlotSeeded slot =>
    change Day.Grows l.day (l.markSlotSeeded slot).day fun _ => 0
    unfold markSlotSeeded
    split <;> exact h.grows
  | _ => exact h.grows

/-- A ledger with what each slot has counted since the epoch began. -/
structure DayAudit where
  ledger : Ledger
  counted : Nat → Int

def DayAudit.step (a : DayAudit) (op : Op) : DayAudit where
  ledger := a.ledger.step op
  counted := fun s =>
    satAdd (Day.carried a.ledger.day.epoch (a.ledger.step op).day.epoch (a.counted s)) (a.ledger.countedBy op s)

/-- The saturating sum of what a slot has counted since the epoch began. -/
def countedSince (anchor : WallAnchor) (ops : List Op) : Nat → Int :=
  (run DayAudit.step ⟨new anchor, fun _ => 0⟩ ops).counted

theorem dayAudit_ledger (a : DayAudit) (ops : List Op) : (run DayAudit.step a ops).ledger = run step a.ledger ops := by
  induction ops generalizing a with
  | nil => rfl
  | cons op rest ih => exact ih (a.step op)

theorem countedBy_nonneg (l : Ledger) {op : Op} (clean : op.DayClean) (s : Nat) : 0 ≤ l.countedBy op s := by
  unfold countedBy
  split
  · rename_i fill
    split
    · unfold countedNotional
      split
      · exact Int.le_refl 0
      split
      · split
        · exact Int.le_refl 0
        · exact turnoverOf_nonneg _ _ _ _ _
      · split
        · exact fillNotional_nonneg clean.1 clean.2
        · exact Int.le_refl 0
    · exact Int.le_refl 0
  · exact Int.le_refl 0

structure DayAudit.Covered (a : DayAudit) : Prop where
  counts : a.ledger.day.Counts
  nonneg : ∀ s, 0 ≤ a.counted s
  covers : ∀ s, a.counted s ≤ a.ledger.day.turnover1e6 s

theorem dayAudit_covered {a : DayAudit} (h : a.Covered) (op : Op) (clean : op.DayClean) : (a.step op).Covered := by
  have grown := step_grows h.counts op clean
  have start : ∀ s, 0 ≤ Day.carried a.ledger.day.epoch (a.ledger.step op).day.epoch (a.counted s) ∧
      Day.carried a.ledger.day.epoch (a.ledger.step op).day.epoch (a.counted s) ≤
        Day.carried a.ledger.day.epoch (a.ledger.step op).day.epoch (a.ledger.day.turnover1e6 s) := by
    intro s
    unfold Day.carried
    split
    · exact ⟨Int.le_refl 0, Int.le_refl 0⟩
    · exact ⟨h.nonneg s, h.covers s⟩
  have sum : ∀ s, (a.step op).counted s =
      min (Day.carried a.ledger.day.epoch (a.ledger.step op).day.epoch (a.counted s) + a.ledger.countedBy op s) i64Max :=
    fun s => satAdd_of_nonneg (start s).1 (a.ledger.countedBy_nonneg clean s)
  refine ⟨grown.counts, fun s => ?_, fun s => ?_⟩
  · rw [sum]
    have := (start s).1
    have := a.ledger.countedBy_nonneg clean s
    simp only [i64Max]
    omega
  · rw [sum]
    have := (start s).2
    have := grown.covers s
    change _ ≤ (a.ledger.step op).day.turnover1e6 s
    omega

theorem run_covered (anchor : WallAnchor) {ops : List Op} (clean : ∀ op ∈ ops, op.DayClean) :
    DayAudit.Covered ⟨run step (new anchor) ops, countedSince anchor ops⟩ := by
  have start : DayAudit.Covered ⟨new anchor, fun _ => 0⟩ := ⟨Day.new_counts, fun _ => Int.le_refl 0, fun _ => Int.le_refl 0⟩
  have kept : (run DayAudit.step ⟨new anchor, fun _ => 0⟩ ops).Covered :=
    run_invariant_of start (fun _ op clean h => dayAudit_covered h op clean) clean
  have same := dayAudit_ledger ⟨new anchor, fun _ => 0⟩ ops
  exact ⟨same ▸ kept.counts, kept.nonneg, same ▸ kept.covers⟩

end Ledger

end TradingEngine.Router
