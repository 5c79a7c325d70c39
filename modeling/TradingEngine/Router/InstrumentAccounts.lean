import TradingEngine.Router.InstrumentTable

/-!
# The instrument aggregates are exact

What every row counts is its position in the row's current price context, and the slot's exposure and unmarked count
are the sums over the rows.
-/

namespace TradingEngine.Router

open Base CoreTypes Finset Function Instruments InstrumentRow

variable {r r' : InstrumentRow} {i s : Nat} {l : Ledger}

namespace InstrumentRow

theorem exposureCtx_range (r : InstrumentRow) (pos : Int) : 0 ≤ r.exposureCtx pos ∧ r.exposureCtx pos ≤ instExposureMax := by
  have range (a b : Int) := And.intro (mul1e6_nonneg a b) (mul1e6_le a b)
  unfold exposureCtx
  dsimp only
  split
  · exact range _ _
  · exact range _ _
  · exact range _ _
  · split <;> exact range _ _
  · decide

theorem mul1e6_zero (b : Int) : mul1e6 0 b = 0 := by
  simp [mul1e6]

theorem exposureCtx_flat (r : InstrumentRow) : r.exposureCtx 0 = 0 := by
  unfold exposureCtx
  simp only [show satAbs 0 = 0 by decide, mul1e6_zero, ite_self]
  split <;> rfl

theorem bare_congr (same : r.book = r'.book) : r.bare = r'.bare := show r.book.bare = r'.book.bare by rw [same]

theorem pos_congr (same : r.book = r'.book) : r.pos1e6 = r'.pos1e6 := show r.book.pos1e6 = r'.book.pos1e6 by rw [same]

/-- What slot `s` counts is what its position is worth now. -/
def ExactAt (r : InstrumentRow) (s : Nat) : Prop :=
  r.exp1e6 s = r.exposureCtx (r.pos1e6 s) ∧ r.unmarked s = (r.bare && decide (r.pos1e6 s ≠ 0))

def unmarkedOf (s : Nat) (r : InstrumentRow) : Int := if r.unmarked s then 1 else 0

/-- Spot is never short, and a perp is a linear row. -/
structure Lawful (r : InstrumentRow) : Prop where
  spot : r.law = .spot → ∀ s, 0 ≤ r.pos1e6 s
  perp : r.has instPerp = true → r.law = .linear

theorem nextPos_spot (spot : r.law = .spot) (slot : Nat) (qty : Int) (buy : Bool) : 0 ≤ (r.nextPos slot qty buy).1 := by
  unfold nextPos
  dsimp only
  generalize (if buy = true then _ else _) = next
  split
  · exact Int.le_refl 0
  · rename_i long
    simpa [spot] using long

theorem lawful_congr (same : r.book = r'.book) (h : r'.Lawful) : r.Lawful := by
  have h : r'.book.Lawful := ⟨h.spot, h.perp⟩
  rw [← same] at h
  exact ⟨h.spot, h.perp⟩

end InstrumentRow

namespace Instruments

def exposureSum (t : Instruments) (s : Nat) : Int := ∑ i ∈ range ledgerInstruments, (t.rows i).exp1e6 s

def unmarkedRows (t : Instruments) (s : Nat) : Nat := #{i ∈ range ledgerInstruments | (t.rows i).unmarked s}

/-- The aggregates are the sums of what the rows count, and no word has wrapped. -/
structure Summed (t : Instruments) : Prop where
  nonneg : ∀ i s, 0 ≤ (t.rows i).exp1e6 s
  le : ∀ i s, (t.rows i).exp1e6 s ≤ instExposureMax
  total : ∀ s < execSlots, t.exposure1e6 s = t.exposureSum s
  count : ∀ s < execSlots, t.unmarked s = t.unmarkedRows s
  sound : t.wrapped = false

variable {t t' : Instruments}

theorem unmarkedRows_cast (t : Instruments) (s : Nat) :
    (t.unmarkedRows s : Int) = ∑ i ∈ range ledgerInstruments, (t.rows i).unmarkedOf s := by
  rw [unmarkedRows, card_filter, Nat.cast_sum]
  refine sum_congr rfl fun i _ => ?_
  unfold unmarkedOf
  split <;> rfl

theorem unmarkedRows_le (t : Instruments) (s : Nat) : t.unmarkedRows s ≤ ledgerInstruments :=
  (card_filter_le _ _).trans (card_range _).le

theorem exposureSum_setRow (t : Instruments) (lt : i < ledgerInstruments) (r : InstrumentRow) (s : Nat) :
    (t.setRow i r).exposureSum s = t.exposureSum s - (t.rows i).exp1e6 s + r.exp1e6 s :=
  sum_range_update lt t.rows r fun r => r.exp1e6 s

theorem unmarkedRows_setRow (t : Instruments) (lt : i < ledgerInstruments) (r : InstrumentRow) (s : Nat) :
    ((t.setRow i r).unmarkedRows s : Int) = t.unmarkedRows s - (t.rows i).unmarkedOf s + r.unmarkedOf s := by
  rw [unmarkedRows_cast, unmarkedRows_cast]
  exact sum_range_update lt t.rows r (unmarkedOf s)

theorem Summed.sum_le (h : Summed t) (s : Nat) : t.exposureSum s ≤ 256 * instExposureMax := sum_le_mul fun i => h.le i s

theorem Summed.part_le (h : Summed t) (lt : i < ledgerInstruments) (s : Nat) : (t.rows i).exp1e6 s ≤ t.exposureSum s :=
  term_le_sum lt fun j => h.nonneg j s

theorem Summed.move_fits (h : Summed t) (lt : i < ledgerInstruments) (known : s < execSlots) {e : Int}
    (nonneg : 0 ≤ e) (le : e ≤ instExposureMax) :
    InI64 (t.exposure1e6 s - (t.rows i).exp1e6 s) ∧ InI64 (t.exposure1e6 s - (t.rows i).exp1e6 s + e) := by
  have total := h.total s known
  have top := h.sum_le s
  have part := h.part_le lt s
  have old := h.nonneg i s
  simp only [InI64, i64Min, i64Max, instExposureMax] at *
  omega

/-! ### One slot of a refresh -/

theorem revalueSlot_rows (t : Instruments) (bare : Bool) (i s : Nat) :
    (t.revalueSlot bare i s).rows = update t.rows i
      { t.rows i with
        exp1e6 := update (t.rows i).exp1e6 s ((t.rows i).exposureCtx ((t.rows i).pos1e6 s))
        unmarked := update (t.rows i).unmarked s (bare && decide ((t.rows i).pos1e6 s ≠ 0)) } := rfl

theorem revalueSlot_summed (h : Summed t) (bare : Bool) (lt : i < ledgerInstruments) (known : s < execSlots) :
    let t' := t.revalueSlot bare i s
    (∀ j s', 0 ≤ (t'.rows j).exp1e6 s' ∧ (t'.rows j).exp1e6 s' ≤ instExposureMax) ∧
    (∀ s' < execSlots, t'.exposure1e6 s' = t'.exposureSum s') ∧ t'.wrapped = false ∧
    (∀ s', (t'.unmarkedRows s' : Int) = t.unmarkedRows s' - (t.rows i).unmarkedOf s' + (t'.rows i).unmarkedOf s') := by
  intro t'
  let e := (t.rows i).exposureCtx ((t.rows i).pos1e6 s)
  obtain ⟨nonneg, le⟩ : 0 ≤ e ∧ e ≤ instExposureMax := (t.rows i).exposureCtx_range _
  obtain ⟨fits, fits'⟩ := h.move_fits lt known nonneg le
  have row : t'.rows i = { t.rows i with
      exp1e6 := update (t.rows i).exp1e6 s e
      unmarked := update (t.rows i).unmarked s (bare && decide ((t.rows i).pos1e6 s ≠ 0)) } := update_self ..
  have exposure : t'.exposure1e6 = update t.exposure1e6 s (t.exposure1e6 s - (t.rows i).exp1e6 s + e) := by
    change update t.exposure1e6 s (i64Wrap (i64Wrap (t.exposure1e6 s - (t.rows i).exp1e6 s) + e)) = _
    rw [wrap_of_inI64 fits, wrap_of_inI64 fits']
  refine ⟨fun j s' => ?_, fun s' known' => ?_, ?_, fun s' => ?_⟩
  · rcases eq_or_ne j i with rfl | other
    · rw [row]
      dsimp only
      rw [update_apply]
      split
      · exact ⟨nonneg, le⟩
      · exact ⟨h.nonneg _ _, h.le _ _⟩
    · rw [show t'.rows j = t.rows j from update_of_ne other _ _]
      exact ⟨h.nonneg _ _, h.le _ _⟩
  · have sum := t.exposureSum_setRow lt (t'.rows i) s'
    have same : (t.setRow i (t'.rows i)).exposureSum s' = t'.exposureSum s' := by
      rw [row]
      rfl
    rw [same, row] at sum
    rw [sum, exposure, ← h.total s' known']
    by_cases own : s' = s
    · subst own
      simp only [update_self]
    · simp only [update_of_ne own]
      omega
  · change (t.wrapped || !decide (InI64 (t.exposure1e6 s - (t.rows i).exp1e6 s)) ||
      !decide (InI64 (i64Wrap (t.exposure1e6 s - (t.rows i).exp1e6 s) + e))) = false
    rw [wrap_of_inI64 fits]
    simp [h.sound, fits, fits']
  · have sum := t.unmarkedRows_setRow lt (t'.rows i) s'
    rw [← sum, row]
    rfl

theorem refreshSlot_summed (h : Summed t) (bare : Bool) (lt : i < ledgerInstruments)
    (known : s < execSlots) : Summed (t.refreshSlot bare i s) := by
  obtain ⟨bounds, total, sound, rows⟩ := revalueSlot_summed h bare lt known
  have others : ∀ s' ≠ s, (t.revalueSlot bare i s).unmarkedRows s' = t.unmarkedRows s' := by
    intro s' other
    have := rows s'
    rw [show ((t.revalueSlot bare i s).rows i).unmarkedOf s' = (t.rows i).unmarkedOf s' by
      simp [unmarkedOf, revalueSlot_rows, other]] at this
    omega
  have own := rows s
  rw [show ((t.revalueSlot bare i s).rows i).unmarkedOf s = if bare && decide ((t.rows i).pos1e6 s ≠ 0) then 1 else 0 by
      simp [unmarkedOf, revalueSlot_rows]] at own
  have count := h.count s known
  have few := t.unmarkedRows_le s
  have few' := (t.revalueSlot bare i s).unmarkedRows_le s
  unfold refreshSlot
  dsimp only
  generalize (bare && decide ((t.rows i).pos1e6 s ≠ 0)) = unmarked at own ⊢
  split
  · exact h
  split
  · rename_i same
    refine ⟨fun j s' => (bounds j s').1, fun j s' => (bounds j s').2, total, fun s' known' => ?_, sound⟩
    change t.unmarked s' = _
    by_cases at_s : s' = s
    · subst at_s
      rw [unmarkedOf, ← same] at own
      omega
    · rw [others s' at_s]
      exact h.count s' known'
  · rename_i changed
    refine ⟨fun j s' => (bounds j s').1, fun j s' => (bounds j s').2, total, fun s' known' => ?_, ?_⟩
    · change update t.unmarked s _ s' = (t.revalueSlot bare i s).unmarkedRows s'
      by_cases at_s : s' = s
      · subst at_s
        rw [update_self]
        change (if unmarked then (t.unmarked s' + 1) % u16Size else (t.unmarked s' + (u16Size - 1)) % u16Size) = _
        cases unmarked with
        | true =>
          rw [unmarkedOf, if_neg (by simpa using Ne.symm changed)] at own
          simp only [if_true, u16Size, ledgerInstruments] at *
          omega
        | false =>
          rw [unmarkedOf, if_pos (by simpa using Ne.symm changed)] at own
          simp only [Bool.false_eq_true, if_false, u16Size, ledgerInstruments] at *
          omega
      · rw [update_of_ne at_s, others s' at_s]
        exact h.count s' known'
    · change ((t.revalueSlot bare i s).wrapped ||
        (if unmarked then decide (t.unmarked s + 1 ≥ u16Size) else decide (t.unmarked s = 0))) = false
      rw [sound, Bool.false_or]
      cases unmarked with
      | true =>
        have room : t.unmarked s + 1 < u16Size := by
          simp only [u16Size, ledgerInstruments] at *
          omega
        simpa using room
      | false =>
        rw [unmarkedOf, if_pos (by simpa using Ne.symm changed)] at own
        have some : t.unmarked s ≠ 0 := by
          simp only [Bool.false_eq_true, if_false] at own
          omega
        simpa using some

theorem refreshSlot_exact (t : Instruments) (i s : Nat) :
    ((t.refreshSlot (t.rows i).bare i s).rows i).ExactAt s ∧
      ∀ s' ≠ s, (t.rows i).ExactAt s' → ((t.refreshSlot (t.rows i).bare i s).rows i).ExactAt s' := by
  have book := (t.refreshSlot_refreshed (t.rows i).bare i s).book i
  have skipped : (t.rows i).pos1e6 s = 0 ∧ (t.rows i).exp1e6 s = 0 ∧ (t.rows i).unmarked s = false →
      (t.rows i).ExactAt s := by
    rintro ⟨flat, none, marked⟩
    refine ⟨?_, ?_⟩
    · rw [flat, none, exposureCtx_flat]
    · simp [marked, flat]
  have revalued : ((t.revalueSlot (t.rows i).bare i s).rows i).ExactAt s ∧
      ∀ s' ≠ s, (t.rows i).ExactAt s' → ((t.revalueSlot (t.rows i).bare i s).rows i).ExactAt s' := by
    rw [revalueSlot_rows, update_self]
    refine ⟨⟨update_self .., update_self ..⟩, fun s' other exact => ?_⟩
    exact ⟨(update_of_ne other _ _).trans exact.1, (update_of_ne other _ _).trans exact.2⟩
  unfold refreshSlot
  dsimp only
  split
  · rename_i flat
    exact ⟨skipped flat, fun _ _ exact => exact⟩
  · split <;> exact revalued

theorem refreshInstrument_summed (h : Summed t) (lt : i < ledgerInstruments) : Summed (t.refreshInstrument i) :=
  loop_invariant (P := fun _ t' => Summed t') h fun _ _ known h' => refreshSlot_summed h' _ lt known

theorem refreshInstrument_exact (t : Instruments) (i : Nat) (known : s < execSlots) :
    ((t.refreshInstrument i).rows i).ExactAt s := by
  have inv := loop_invariant (f := refreshSlot (t.rows i).bare i) (n := execSlots) (s := t)
    (P := fun n t' => Refreshed i t t' ∧ ∀ s < n, (t'.rows i).ExactAt s)
    ⟨.refl i t, nofun⟩ fun n t' _ ⟨kept, exact⟩ => ?_
  · exact inv.2 s known
  have same : (t.rows i).bare = (t'.rows i).bare := bare_congr (kept.book i).symm
  refine ⟨kept.trans (t'.refreshSlot_refreshed _ i n), fun s lt => ?_⟩
  rw [same]
  rcases Nat.lt_succ_iff_lt_or_eq.mp lt with below | rfl
  · exact (t'.refreshSlot_exact i n).2 s (by omega) (exact s below)
  · exact (t'.refreshSlot_exact i s).1

/-! ### The table -/

/-- The aggregates are the sums over the rows, and every row counts what it is worth. -/
structure Exact (t : Instruments) : Prop where
  keyed : Keyed t
  summed : Summed t
  rows : ∀ i s, s < execSlots → (t.rows i).ExactAt s
  lawful : ∀ i, (t.rows i).Lawful

theorem new_exact : Exact new := by
  have flat : ∀ s, free.ExactAt s := fun s => ⟨rfl, rfl⟩
  refine ⟨new_keyed, ⟨fun _ _ => Int.le_refl 0, fun _ _ => ?_, fun s _ => ?_, fun s _ => ?_, rfl⟩,
    fun _ s _ => flat s, fun _ => ⟨fun _ _ => Int.le_refl 0, fun perp => ?_⟩⟩
  · exact show (0 : Int) ≤ instExposureMax by decide
  · exact (sum_eq_zero fun i _ => rfl).symm
  · exact (card_eq_zero.mpr (filter_eq_empty_iff.mpr fun i _ => Bool.false_ne_true)).symm
  · exact absurd perp (show ¬ free.has instPerp = true by decide)

theorem Summed.setRow (h : Summed t) (exp : r.exp1e6 = (t.rows i).exp1e6)
    (unmarked : r.unmarked = (t.rows i).unmarked) : Summed (t.setRow i r) := by
  have kept : ∀ j, ((t.setRow i r).rows j).exp1e6 = (t.rows j).exp1e6 ∧
      ((t.setRow i r).rows j).unmarked = (t.rows j).unmarked :=
    (forall_update_iff t.rows (p := fun j r => r.exp1e6 = (t.rows j).exp1e6 ∧ r.unmarked = (t.rows j).unmarked)).mpr
      ⟨⟨exp, unmarked⟩, fun _ _ => ⟨rfl, rfl⟩⟩
  refine ⟨fun j s => (kept j).1 ▸ h.nonneg j s, fun j s => (kept j).1 ▸ h.le j s, fun s known => ?_, fun s known => ?_, h.sound⟩
  · refine (h.total s known).trans (sum_congr rfl fun j _ => ?_)
    rw [(kept j).1]
  · refine (h.count s known).trans (congrArg card (filter_congr fun j _ => ?_))
    rw [(kept j).2]

theorem Exact.revalue (h : Exact t) (used : i < t.n) (sym : r.sym = (t.rows i).sym)
    (exp : r.exp1e6 = (t.rows i).exp1e6) (unmarked : r.unmarked = (t.rows i).unmarked) (lawful : r.Lawful) :
    Exact ((t.setRow i r).refreshInstrument i) := by
  have kept := (t.setRow i r).refreshInstrument_refreshed i
  have lt : i < ledgerInstruments := Nat.lt_of_lt_of_le used h.keyed.fits
  refine ⟨kept.keyed (h.keyed.setRow used sym) used, refreshInstrument_summed (h.summed.setRow exp unmarked) lt,
    fun j s known => ?_, fun j => lawful_congr (kept.book j)
      ((forall_update_iff t.rows (p := fun _ => Lawful)).mpr ⟨lawful, fun j _ => h.lawful j⟩ j)⟩
  rcases eq_or_ne j i with rfl | other
  · exact (t.setRow j r).refreshInstrument_exact j known
  rw [kept.others j other]
  change (update t.rows i r j).ExactAt s
  rw [update_of_ne other]
  exact h.rows j s known

theorem Exact.setRow (h : Exact t) (used : i < t.n) (sym : r.sym = (t.rows i).sym)
    (exp : r.exp1e6 = (t.rows i).exp1e6) (unmarked : r.unmarked = (t.rows i).unmarked)
    (right : ∀ s < execSlots, r.ExactAt s) (lawful : r.Lawful) : Exact (t.setRow i r) :=
  ⟨h.keyed.setRow used sym, h.summed.setRow exp unmarked,
    (forall_update_iff t.rows (p := fun _ r => ∀ s, s < execSlots → r.ExactAt s)).mpr ⟨right, fun j _ => h.rows j⟩,
    (forall_update_iff t.rows (p := fun _ => Lawful)).mpr ⟨lawful, fun j _ => h.lawful j⟩⟩

theorem Exact.recount (h : Exact t) (refused expired : Nat) :
    Exact { t with marksRefused := refused, marksExpired := expired } :=
  ⟨⟨h.keyed.fits, h.keyed.rising, h.keyed.free, h.keyed.named⟩,
    ⟨h.summed.nonneg, h.summed.le, h.summed.total, h.summed.count, h.summed.sound⟩, h.rows, h.lawful⟩

theorem spec_row_lawful {spec : InstrumentSpec} (good : spec.bad = false) : spec.row.Lawful := by
  have clear : ∀ f : BitVec 8, f &&& ~~~(instWritable ||| instCall) = 0 → (f ||| instStale) &&& instPerp = 0 := by decide
  refine ⟨fun _ _ => Int.le_refl 0, fun perp => ?_⟩
  simp only [InstrumentSpec.bad, decide_eq_false_iff_not, not_or, not_and, not_not] at good
  obtain ⟨_, _, _, _, option, plain, _⟩ := good
  have perp : (spec.flags ||| (if spec.law = .option then instStale else 0)) &&& instPerp ≠ 0 := of_decide_eq_true perp
  split at perp
  · rename_i law
    exact absurd (clear _ (option law)) perp
  · rename_i law
    rw [(plain law).1] at perp
    exact absurd perp (by decide)

theorem spec_row_exact (spec : InstrumentSpec) (s : Nat) : spec.row.ExactAt s := by
  refine ⟨(exposureCtx_flat _).symm, ?_⟩
  change false = (spec.row.bare && decide ((0 : Int) ≠ 0))
  simp

theorem Exact.insertRow (h : Exact t) {spec : InstrumentSpec} (good : spec.bad = false)
    (fresh : t.instFind spec.sym = none) (room : t.n < ledgerInstruments) : Exact (t.insertRow spec) := by
  have rows {P : InstrumentRow → Prop} (new : P spec.row) (old : ∀ k, P (t.rows k)) (j : Nat) :
      P ((t.insertRow spec).rows j) := by
    rcases t.insertRow_rows spec j with same | ⟨k, same⟩
    · exact same ▸ new
    · exact same ▸ old k
  have sum : ∀ w : InstrumentRow → Int, w .free = 0 → w spec.row = 0 →
      ∑ j ∈ range ledgerInstruments, w ((t.insertRow spec).rows j) = ∑ j ∈ range ledgerInstruments, w (t.rows j) := by
    intro w free new
    have shifted := shiftUp_sum w spec.sym room t.keys t.rows
    have hole := (shiftUp_shifted spec.sym t.n t.keys t.rows).le
    have inserted : (t.insertRow spec).rows = update (shiftUp spec.sym t.n t.keys t.rows).2.2
        (shiftUp spec.sym t.n t.keys t.rows).1 spec.row := rfl
    rw [inserted, sum_range_update (by omega), new]
    rw [h.keyed.free t.n (Nat.le_refl _), free] at shifted
    omega
  refine ⟨insertRow_keyed h.keyed (InstrumentSpec.sym_some good) fresh room,
    ⟨rows (P := fun r => ∀ s, 0 ≤ r.exp1e6 s) (fun _ => Int.le_refl 0) h.summed.nonneg,
      rows (P := fun r => ∀ s, r.exp1e6 s ≤ instExposureMax) (fun _ => show (0 : Int) ≤ instExposureMax by decide) h.summed.le,
      fun s known => ?_, fun s known => ?_, h.summed.sound⟩,
    rows (P := fun r => ∀ s, s < execSlots → r.ExactAt s) (fun s _ => spec_row_exact spec s) h.rows,
    rows (spec_row_lawful good) h.lawful⟩
  · exact (h.summed.total s known).trans (sum (fun r => r.exp1e6 s) rfl rfl).symm
  · have cast := sum (unmarkedOf s) rfl rfl
    rw [← unmarkedRows_cast, ← unmarkedRows_cast] at cast
    exact (h.summed.count s known).trans (by omega)

/-! ### The calls -/

theorem bindInstrument_exact (h : Exact t) (spec : InstrumentSpec) : Exact (t.bindInstrument spec).1 := by
  rcases t.bindInstrument_cases spec with ⟨same, _⟩ | ⟨good, fresh, room, inserted⟩
  · exact same.symm ▸ h
  · rw [inserted]
    exact h.insertRow good fresh room

theorem bindPerp_exact (h : Exact t) (sym : SymbolId) (slot : Nat) : Exact (t.bindPerp sym slot).1 := by
  unfold bindPerp
  split
  · exact h
  split
  · exact h
  rcases t.bindInstrument_cases ⟨sym, .linear, 0, slot, 0, 0⟩ with ⟨same, err, failed⟩ | ⟨good, fresh, room, bound⟩
  · rw [show t.bindInstrument ⟨sym, .linear, 0, slot, 0, 0⟩ = (t, .error err) from Prod.ext same failed]
    exact h
  have inserted := h.insertRow good fresh room
  rw [bound]
  dsimp only
  split
  · exact inserted
  rename_i i found
  have flat := insertRow_found inserted.keyed found
  have flagged := inserted.setRow (i := i) (inserted.keyed.lt_of_instFind found)
    (r := { (t.insertRow ⟨sym, .linear, 0, slot, 0, 0⟩).rows i with
      flags := ((t.insertRow ⟨sym, .linear, 0, slot, 0, 0⟩).rows i).flags ||| instPerp }) rfl rfl rfl ?_ ?_
  · exact ⟨⟨flagged.keyed.fits, flagged.keyed.rising, flagged.keyed.free, flagged.keyed.named⟩,
      ⟨flagged.summed.nonneg, flagged.summed.le, flagged.summed.total, flagged.summed.count,
        flagged.summed.sound⟩, flagged.rows, flagged.lawful⟩
  · intro s _
    rw [flat]
    refine ⟨(exposureCtx_flat _).symm, ?_⟩
    change false = (_ && decide ((0 : Int) ≠ 0))
    simp
  · rw [flat]
    exact ⟨fun _ _ => Int.le_refl 0, fun _ => rfl⟩

theorem onMark_exact (h : Exact t) (sym : SymbolId) (mark index : Int) (tsNs : Nat) :
    Exact (t.onMark sym mark index tsNs) := by
  unfold onMark
  split
  · exact h
  rename_i i found
  split
  · exact h
  · split
    · exact h.recount _ t.marksExpired
    · exact h.revalue (h.keyed.lt_of_instFind found) rfl rfl rfl ⟨(h.lawful i).spot, (h.lawful i).perp⟩

theorem stale_and_call (f : BitVec 8) : (f ||| instStale) &&& instCall = f &&& instCall := by
  revert f
  decide

theorem stale_and_perp (f : BitVec 8) : (f ||| instStale) &&& instPerp = f &&& instPerp := by
  revert f
  decide

theorem stale_exact (right : r.ExactAt s) : ({ r with flags := r.flags ||| instStale } : InstrumentRow).ExactAt s := by
  obtain ⟨worth, flag⟩ := right
  refine ⟨worth.trans ?_, flag.trans ?_⟩
  · simp only [exposureCtx, has, stale_and_call, pxCtx, marginIndex]
  · simp only [bare, has, stale_and_perp]

theorem expireMark_exact (nowNs i : Nat) (h : Exact t) (used : i < t.n) :
    Exact (t.expireMark nowNs i) ∧ (t.expireMark nowNs i).n = t.n := by
  unfold expireMark
  dsimp only
  split
  · split
    · refine ⟨Exact.recount ?_ t.marksRefused _, rfl⟩
      refine h.setRow used rfl rfl rfl (fun s known => stale_exact (h.rows i s known)) ⟨(h.lawful i).spot, ?_⟩
      simpa only [has, stale_and_perp] using (h.lawful i).perp
    · exact ⟨h, rfl⟩
  · split
    · have expired := (h.recount t.marksRefused (bump u64Max t.marksExpired)).revalue (i := i) used
        (r := { t.rows i with mark1e6 := 0 }) rfl rfl rfl ⟨(h.lawful i).spot, (h.lawful i).perp⟩
      exact ⟨expired, (refreshInstrument_refreshed _ i).n⟩
    · exact ⟨h, rfl⟩

theorem expireMarks_exact (h : Exact t) (nowNs : Nat) : Exact (t.expireMarks nowNs) := by
  have inv := loop_invariant (f := expireMark nowNs) (n := t.n) (s := t)
    (P := fun _ t' => Exact t' ∧ t'.n = t.n) ⟨h, rfl⟩ fun i t' lt ⟨h', same⟩ => ?_
  · exact inv.1
  · obtain ⟨exact, n⟩ := expireMark_exact nowNs i h' (same ▸ lt)
    exact ⟨exact, n.trans same⟩

theorem afterSummary_counts (r : InstrumentRow) (summary : OptSummary) :
    (r.afterSummary summary).row.sym = r.sym ∧ (r.afterSummary summary).row.exp1e6 = r.exp1e6 ∧
      (r.afterSummary summary).row.unmarked = r.unmarked ∧
      ((r.afterSummary summary).moved = false → (r.afterSummary summary).row = r) ∧
      (r.afterSummary summary).row.law = r.law ∧ (r.afterSummary summary).row.pos1e6 = r.pos1e6 ∧
      ((r.afterSummary summary).row.has instPerp = true → r.has instPerp = true) := by
  have fresh : ∀ f : BitVec 8, f &&& ~~~instStale &&& instPerp = f &&& instPerp := by decide
  have indexed : ∀ (b : Bool) (index : Int), let r' := if b then { r with index1e6 := index } else r
      r'.sym = r.sym ∧ r'.exp1e6 = r.exp1e6 ∧ r'.unmarked = r.unmarked ∧ (b = false → r' = r) ∧
        r'.law = r.law ∧ r'.pos1e6 = r.pos1e6 ∧ r'.flags = r.flags := by
    intro b index
    cases b <;> simp
  obtain ⟨sym, exp, unmarked, still, law, pos, flags⟩ :=
    indexed (decide (summary.underlyingPx1e9 > 0)) (summary.underlyingPx1e9.tdiv 1000)
  unfold afterSummary
  dsimp only at *
  generalize (if decide (summary.underlyingPx1e9 > 0) = true then _ else r) = r' at *
  have same : r'.has instPerp = r.has instPerp := by rw [has, has, flags]
  split
  · split
    · refine ⟨sym, exp, unmarked, fun moved => by simp at moved, law, pos, fun perp => ?_⟩
      rw [← same]
      simpa only [has, fresh] using perp
    · exact ⟨sym, exp, unmarked, still, law, pos, fun perp => same ▸ perp⟩
  · exact ⟨sym, exp, unmarked, still, law, pos, fun perp => same ▸ perp⟩

theorem onOptSummary_exact (h : Exact t) (summary : OptSummary) : Exact (t.onOptSummary summary) := by
  unfold onOptSummary
  split
  · exact h
  rename_i i found
  have used := h.keyed.lt_of_instFind found
  obtain ⟨sym, exp, unmarked, still, law, pos, perp⟩ := afterSummary_counts (t.rows i) summary
  split
  · exact h
  dsimp only
  generalize (t.rows i).afterSummary summary = out at *
  have lawful : out.row.Lawful := by
    refine ⟨fun spot => ?_, fun flag => law.trans ((h.lawful i).perp (perp flag))⟩
    rw [pos]
    exact (h.lawful i).spot (law.symm.trans spot)
  cases moved : out.moved with
  | true =>
    have valued := (h.recount (bump u64Max t.marksRefused) t.marksExpired).revalue used sym exp unmarked lawful
    simp only [if_true]
    split
    · exact valued
    · exact h.revalue used sym exp unmarked lawful
  | false =>
    have same : t.setRow i out.row = t := by rw [still moved, setRow, update_eq_self]
    simp only [same, Bool.false_eq_true, if_false]
    split
    · exact h.recount _ t.marksExpired
    · exact h

end Instruments

namespace Ledger

theorem bookInstrumentFill_exact (h : l.inst.Exact) (used : i < l.inst.n) (fill : Fill)
    (slot : Nat) : (l.bookInstrumentFill i fill slot).inst.Exact := by
  have keeps : ∀ pos : Int, ((l.inst.rows i).law = .spot → 0 ≤ pos) → ∀ px : Int, ({ l.inst.rows i with
        pos1e6 := update (l.inst.rows i).pos1e6 slot pos, lastPx1e6 := px } : InstrumentRow).Lawful := by
    intro pos long px
    refine ⟨fun spot s => ?_, (h.lawful i).perp⟩
    dsimp only
    rw [update_apply]
    split
    · exact long spot
    · exact (h.lawful i).spot spot s
  unfold bookInstrumentFill
  dsimp only
  split
  · exact h.revalue used rfl rfl rfl (keeps 0 (fun _ => Int.le_refl 0) _)
  · exact h.revalue used rfl rfl rfl (keeps _ (fun spot => nextPos_spot spot slot _ _) _)

theorem bookFill_exact (h : l.inst.Exact) (fill : Fill) : (l.bookFill fill).inst.Exact := by
  rcases l.bookFill_cases fill with ⟨_, same⟩ | ⟨_, _, _, same⟩ | ⟨_, _, i, found, booked⟩ | ⟨_, _, _, booked⟩
  · exact same.symm ▸ h
  · rw [same]
    exact h
  · rw [booked]
    exact bookInstrumentFill_exact (l := { l with day := l.day.rollDay fill.tsNs }) h (h.keyed.lt_of_instFind found) fill _
  · rw [booked]
    exact h

theorem perpFind_some {t : Instruments} (h : t.Keyed) {sym : SymbolId} (found : t.perpFind sym = some i) :
    i < t.n ∧ (t.rows i).has instPerp = true := by
  unfold perpFind at found
  split at found
  · simp at found
  split at found
  · simp at found
  rename_i j at_j
  split at found
  · rename_i perp
    cases found
    exact ⟨h.lt_of_instFind at_j, perp⟩
  · simp at found

theorem seedPerp_exact (h : l.inst.Exact) (sym : SymbolId) (pos avgPx dayOpen : Int) :
    (l.seedPerp sym pos avgPx dayOpen).1.inst.Exact := by
  rcases l.seedPerp_cases sym pos avgPx dayOpen with same | ⟨i, found, _, _, _, seeded⟩
  · exact same.symm ▸ h
  obtain ⟨used, perp⟩ := perpFind_some h.keyed found
  have linear := (h.lawful i).perp perp
  rw [seeded]
  refine h.revalue used rfl rfl rfl ⟨fun spot => ?_, fun _ => linear⟩
  exact absurd (linear.symm.trans spot) (by decide)

theorem step_exact (h : l.inst.Exact) (op : Op) : (l.step op).inst.Exact := by
  cases op with
  | bookFill fill => exact bookFill_exact h fill
  | bind venue family outcome yes =>
    change (l.bind venue family outcome yes).inst.Exact
    exact (l.bind_sameBooks venue family outcome yes).inst.symm ▸ h
  | settle venue family outcome =>
    change (l.settle venue family outcome).inst.Exact
    exact (l.settle_sameBooks venue family outcome).inst.symm ▸ h
  | bindInstrument spec => exact bindInstrument_exact h spec
  | bindPerp sym slot => exact bindPerp_exact h sym slot
  | seedPerp sym pos avgPx dayOpen => exact seedPerp_exact h sym pos avgPx dayOpen
  | onMark sym mark index tsNs => exact onMark_exact h sym mark index tsNs
  | expireMarks nowNs => exact expireMarks_exact h nowNs
  | onOptSummary summary => exact onOptSummary_exact h summary
  | observeMonoClock monoNs =>
    change (l.observeMonoClock monoNs).inst.Exact
    unfold observeMonoClock
    split <;> exact h
  | markSlotSeeded slot =>
    change (l.markSlotSeeded slot).inst.Exact
    unfold markSlotSeeded
    split <;> exact h
  | _ => exact h

theorem reachable_exact (reach : l.Reachable) : l.inst.Exact :=
  reachable_invariant (P := fun l => l.inst.Exact) (fun _ => new_exact)
    (fun _ op h => step_exact h op) reach

/-- After every history of calls, binds among the others: the keys rise, the tail is free, a row carries its key, and
the branchless search answers as the scan of the rows does. -/
theorem instrument_lookup_exact (anchor : WallAnchor) (ops : List Op) :
    let t := (run step (new anchor) ops).inst
    t.n ≤ ledgerInstruments ∧ (∀ i j, i < j → j < t.n → t.keys i < t.keys j) ∧
    (∀ j, t.n ≤ j → t.keys j = symbolIdNone) ∧ (∀ i < t.n, (t.rows i).sym = t.keys i) ∧
    ∀ sym, t.instFind sym = t.scanFind sym := by
  intro t
  have h : t.Keyed := (reachable_exact ⟨anchor, ops, rfl⟩).keyed
  exact ⟨h.fits, h.rising.rises, h.rising.tail, h.named, h.instFind_eq_scan⟩

/-- After every history of calls, each slot of each row counts its position in the row's current price
context, the slot's exposure is the sum over the rows, the unmarked bit and count are those of the
linear rows without a mark, and no aggregate has wrapped on the way. -/
theorem instrument_aggregates_exact (anchor : WallAnchor) (ops : List Op) :
    let t := (run step (new anchor) ops).inst
    (∀ i < ledgerInstruments, ∀ s < execSlots, (t.rows i).exp1e6 s = (t.rows i).exposureCtx ((t.rows i).pos1e6 s)) ∧
    (∀ s < execSlots, t.exposure1e6 s = ∑ i ∈ range ledgerInstruments, (t.rows i).exp1e6 s) ∧
    (∀ i < ledgerInstruments, ∀ s < execSlots, (t.rows i).unmarked s = true ↔
      (t.rows i).law = .linear ∧ (t.rows i).has instPerp = false ∧ (t.rows i).mark1e6 ≤ 0 ∧ (t.rows i).pos1e6 s ≠ 0) ∧
    (∀ s < execSlots, t.unmarked s = #{i ∈ range ledgerInstruments |
      (t.rows i).law = .linear ∧ (t.rows i).has instPerp = false ∧ (t.rows i).mark1e6 ≤ 0 ∧ (t.rows i).pos1e6 s ≠ 0}) ∧
    t.wrapped = false := by
  intro t
  have h : t.Exact := reachable_exact ⟨anchor, ops, rfl⟩
  have flag : ∀ i, ∀ s < execSlots, (t.rows i).unmarked s = true ↔
      (t.rows i).law = .linear ∧ (t.rows i).has instPerp = false ∧ (t.rows i).mark1e6 ≤ 0 ∧
        (t.rows i).pos1e6 s ≠ 0 := by
    intro i s known
    rw [(h.rows i s known).2, bare]
    simp only [Bool.and_eq_true, decide_eq_true_eq, Bool.not_eq_true']
    tauto
  refine ⟨fun i _ s known => (h.rows i s known).1, h.summed.total, fun i _ s known => flag i s known,
    fun s known => ?_, h.summed.sound⟩
  rw [h.summed.count s known]
  exact congrArg card (filter_congr fun i _ => flag i s known)

end Ledger

end TradingEngine.Router
