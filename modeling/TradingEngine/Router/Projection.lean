import TradingEngine.Router.Ledger

/-!
# What the clamp projects is what the ledger books

The projection and the booking walk the family rows separately.
-/

namespace TradingEngine.Router

open Base CoreTypes Function FamilyRow

def FamilyRow.shares (r r' : FamilyRow) : Bool :=
  r.symYes = r'.symYes || r.symYes = r'.symNo || r.symNo = r'.symYes || r.symNo = r'.symNo

namespace FamilyRows

variable {rows : FamilyRows} {slot : Nat} {sym : SymbolId} {qty : Int} {buy : Bool}

def LegsDisjoint (rows : FamilyRows) : Prop :=
  ∀ i < ledgerRows, ∀ j < ledgerRows, i ≠ j → (rows i).isBound = true → (rows j).isBound = true →
    (rows i).shares (rows j) = false

instance (rows : FamilyRows) : Decidable rows.LegsDisjoint :=
  inferInstanceAs (Decidable (∀ i < ledgerRows, ∀ j < ledgerRows, _))

theorem LegsDisjoint.holder_unique (disjoint : rows.LegsDisjoint) {i j : Nat} (lt : i < ledgerRows)
    (lt' : j < ledgerRows) (held : (rows i).holds sym = true) (held' : (rows j).holds sym = true) : i = j := by
  by_contra other
  simp only [holds, Bool.and_eq_true, Bool.or_eq_true, decide_eq_true_eq] at held held'
  have apart := disjoint i lt j lt' other held.1 held'.1
  simp only [shares, Bool.or_eq_false_iff, decide_eq_false_iff_not] at apart
  obtain ⟨⟨⟨yy, yn⟩, ny⟩, nn⟩ := apart
  rcases held.2 with rfl | rfl
  · exact held'.2.elim yy yn
  · exact held'.2.elim ny nn

theorem legRow_some {i : Nat} (found : rows.legRow sym = some i) : i < ledgerRows ∧ (rows i).holds sym = true := by
  obtain ⟨lt, hit, _⟩ := firstBelow_some found
  exact ⟨lt, hit⟩

theorem legRow_of_holds {i : Nat} (disjoint : rows.LegsDisjoint) (lt : i < ledgerRows)
    (held : (rows i).holds sym = true) : rows.legRow sym = some i := by
  cases found : rows.legRow sym with
  | none => simp [firstBelow_none found i lt] at held
  | some j =>
    obtain ⟨lt', held'⟩ := legRow_some found
    rw [disjoint.holder_unique lt lt' held held']

def legFilled (r : FamilyRow) (slot : Nat) (sym : SymbolId) (qty : Int) (buy : Bool) : FamilyRow :=
  if sym = r.symYes then
    { r with posYes1e6 := update r.posYes1e6 slot (apply (r.posYes1e6 slot) qty buy).1 }
  else { r with posNo1e6 := update r.posNo1e6 slot (apply (r.posNo1e6 slot) qty buy).1 }

theorem bookLeg_some {i : Nat} (found : rows.legRow sym = some i) :
    (rows.bookLeg slot sym qty buy).1 = update rows i (legFilled (rows i) slot sym qty buy) := by
  unfold bookLeg legFilled
  rw [found]
  dsimp only
  split <;> rfl

theorem projectRow_holder {i : Nat} (held : (rows i).holds sym = true) (total : Int) (hit : Bool) :
    projectRow rows slot sym qty buy i (total, hit) =
      (satAdd total ((legFilled (rows i) slot sym qty buy).exposure slot), true) := by
  simp only [holds, Bool.and_eq_true, Bool.or_eq_true, decide_eq_true_eq] at held
  obtain ⟨bound, leg⟩ := held
  unfold projectRow legFilled exposure
  simp only [bound, if_true]
  by_cases yes : sym = (rows i).symYes
  · rw [if_pos yes, if_pos yes]
    simp
  · rw [if_neg yes, if_pos (leg.resolve_left yes), if_neg yes]
    simp

theorem projectRow_other {i : Nat} (other : (rows i).holds sym = false) (total : Int) (hit : Bool) :
    projectRow rows slot sym qty buy i (total, hit) = (exposureRow rows slot i total, hit) := by
  unfold projectRow exposureRow exposure
  by_cases bound : (rows i).isBound = true
  · simp only [holds, bound, Bool.true_and, Bool.or_eq_false_iff, decide_eq_false_iff_not] at other
    simp [bound, other.1, other.2]
  · simp [bound]

theorem legFilled_bound (r : FamilyRow) : (legFilled r slot sym qty buy).isBound = r.isBound := by
  unfold legFilled
  split <;> rfl

theorem project_loop (slot : Nat) (qty : Int) (buy : Bool) (disjoint : rows.LegsDisjoint) {i : Nat}
    (lt : i < ledgerRows) (held : (rows i).holds sym = true) {n : Nat} (le : n ≤ ledgerRows) :
    let booked : FamilyRows := update rows i (legFilled (rows i) slot sym qty buy)
    loop (projectRow rows slot sym qty buy) n (0, false) = (loop (exposureRow booked slot) n 0, decide (i < n)) := by
  intro booked
  induction n with
  | zero => rfl
  | succ n ih =>
    rw [loop, loop, ih (by omega)]
    rcases eq_or_ne n i with rfl | other
    · rw [projectRow_holder held]
      have own : booked n = legFilled (rows n) slot sym qty buy := update_self ..
      have bound : (rows n).isBound = true := by
        simp only [holds, Bool.and_eq_true] at held
        exact held.1
      simp [exposureRow, own, legFilled_bound, bound]
    · have clear : (rows n).holds sym = false := by
        by_contra holds
        exact other (disjoint.holder_unique (by omega) lt (by simpa using holds) held)
      have same : booked n = rows n := update_of_ne other _ _
      rw [projectRow_other clear]
      simp only [exposureRow, same, Prod.mk.injEq, true_and, decide_eq_decide]
      omega

theorem projectedFamily_eq (disjoint : rows.LegsDisjoint) {i : Nat} (lt : i < ledgerRows)
    (held : (rows i).holds sym = true) (known : slot < execSlots) :
    rows.projectedFamily1e6 slot sym qty buy = (rows.bookLeg slot sym qty buy).1.familyExposure1e6 slot := by
  have found := legRow_of_holds disjoint lt held
  have walked := project_loop slot qty buy disjoint lt held (Nat.le_refl ledgerRows)
  unfold projectedFamily1e6 familyExposure1e6
  rw [bookLeg_some found, walked]
  simp [lt, Nat.not_le.mpr known]

end FamilyRows

namespace Ledger

theorem bookFill_rows (l : Ledger) (fill : Fill) :
    (l.bookFill fill).rows = l.rows ∨ ∃ i, l.rows.legRow fill.sym = some i ∧ fill.strategyId < execSlots ∧
      (l.bookFill fill).rows =
        update l.rows i (FamilyRows.legFilled (l.rows i) fill.strategyId fill.sym fill.qty fill.buy) := by
  rcases l.bookFill_cases fill with ⟨_, same⟩ | ⟨_, _, _, same⟩ | ⟨_, _, i, _, booked⟩ | ⟨_, known, _, booked⟩
  · exact .inl (by rw [same])
  · exact .inl (by rw [same])
  · refine .inl ?_
    rw [booked, bookInstrumentFill]
    cases fill.settlement <;> rfl
  have rows : (l.bookFill fill).rows = (l.rows.bookLeg fill.strategyId fill.sym fill.qty fill.buy).1 := by
    rw [booked]
    rfl
  cases found : l.rows.legRow fill.sym with
  | none => exact .inl (by rw [rows, FamilyRows.bookLeg, found])
  | some i => exact .inr ⟨i, rfl, known, by rw [rows, FamilyRows.bookLeg_some found]⟩

theorem step_rows (l : Ledger) (op : Op) :
    (l.step op).rows = match op with
      | .bookFill fill => (l.bookFill fill).rows
      | .bind venue family outcome yes => (l.bind venue family outcome yes).rows
      | .settle venue family outcome => (l.settle venue family outcome).rows
      | _ => l.rows := by
  cases op with
  | seedPerp sym pos avgPx dayOpen =>
    change (l.seedPerp sym pos avgPx dayOpen).1.rows = l.rows
    rcases l.seedPerp_cases sym pos avgPx dayOpen with same | ⟨i, _, _, _, _, seeded⟩
    · rw [same]
    · rw [seeded]
      rfl
  | observeMonoClock monoNs =>
    change (l.observeMonoClock monoNs).rows = l.rows
    unfold observeMonoClock
    split <;> rfl
  | markSlotSeeded slot =>
    change (l.markSlotSeeded slot).rows = l.rows
    unfold markSlotSeeded
    split <;> rfl
  | _ => rfl

/-- On family rows that share no leg, the exposure projected for a leg's order is the slot's exposure
after a venue fill of it is booked, whatever the fill's price, time, id and flags. -/
theorem projection_is_booking (l : Ledger) (disjoint : l.rows.LegsDisjoint) (fill : Fill)
    (venue : fill.origin = .venue) (known : fill.strategyId < execSlots)
    (leg : ∃ i < ledgerRows, (l.rows i).holds fill.sym = true) (family : l.inst.instFind fill.sym = none) :
    l.projectedExposure1e6 fill.strategyId fill.sym fill.qty fill.buy =
      (l.bookFill fill).slotExposure1e6 fill.strategyId := by
  obtain ⟨i, lt, held⟩ := leg
  have booked : (l.bookFill fill).rows = (l.rows.bookLeg fill.strategyId fill.sym fill.qty fill.buy).1 ∧
      (l.bookFill fill).inst = l.inst := by
    rcases l.bookFill_cases fill with ⟨foreign, _⟩ | ⟨_, unknown, _⟩ | ⟨_, _, j, found, _⟩ | ⟨_, _, _, booked⟩
    · exact absurd venue foreign
    · omega
    · simp [family] at found
    · rw [booked]
      exact ⟨rfl, rfl⟩
  unfold projectedExposure1e6 slotExposure1e6
  rw [if_neg (by omega), if_neg (by omega), booked.1, booked.2, FamilyRows.projectedFamily_eq disjoint lt held known]

/-- A slot holding YES contracts of one family sells some of them, beside another family. -/
theorem sold_leg_projection :
    let l := run step (new ⟨0, 0⟩)
      [.bind 4 0 20182 67108964, .bind 4 1 20190 67108970,
        .bookFill ⟨1, 67108964, .bid, 3, .venue, false, false, 500000, 8000000, 1⟩]
    let fill : Fill := ⟨2, 67108964, .ask, 3, .venue, false, false, 400000, 3000000, 2⟩
    l.projectedExposure1e6 3 67108964 3000000 false = 5000000 ∧ (l.bookFill fill).slotExposure1e6 3 = 5000000 := by
  intro l fill
  have same := projection_is_booking l (by decide +kernel) fill rfl (by decide)
    ⟨0, by decide, by decide +kernel⟩ (by decide +kernel)
  have projected : l.projectedExposure1e6 3 67108964 3000000 false = 5000000 := by decide +kernel
  exact ⟨projected, same.symm.trans projected⟩

end Ledger

end TradingEngine.Router
