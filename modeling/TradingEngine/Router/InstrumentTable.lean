import TradingEngine.Router.Ledger

/-!
# The instrument table is keyed by symbol

The keys rise, each row carries its key, and the rows past the last one are free; so the branchless lookup finds a
symbol exactly when a row is bound to it.
-/

namespace TradingEngine.Router

open Base CoreTypes Function

variable {sym : SymbolId} {i : Nat} {spec : InstrumentSpec}

def InstrumentRow.book (r : InstrumentRow) : InstrumentRow :=
  { r with exp1e6 := fun _ => 0, unmarked := fun _ => false }

namespace Instruments

structure Keyed (t : Instruments) : Prop where
  fits : t.n ≤ ledgerInstruments
  rising : Rising symbolIdNone t.n t.keys
  free : ∀ j, t.n ≤ j → t.rows j = .free
  named : ∀ j < t.n, (t.rows j).sym = t.keys j

variable {t t' : Instruments}

theorem lt_symbolIdNone (ne : sym ≠ symbolIdNone) : sym < symbolIdNone := Ne.lt_top ne

theorem instFind_some (found : t.instFind sym = some i) :
    i < ledgerInstruments ∧ t.keys i = sym ∧ sym ≠ symbolIdNone := by
  unfold instFind at found
  split at found
  · simp at found
  rename_i used
  dsimp only at found
  split at found
  · rename_i hit
    cases found
    exact ⟨Nat.mod_lt _ (by decide), hit, fun none => used (.inr none)⟩
  · simp at found

theorem Keyed.instFind_iff (h : Keyed t) : t.instFind sym = some i ↔ i < t.n ∧ t.keys i = sym := by
  constructor
  · intro found
    obtain ⟨_, key, some⟩ := instFind_some found
    refine ⟨?_, key⟩
    by_contra outside
    exact some (key.symm.trans (h.rising.tail i (by omega)))
  · rintro ⟨used, rfl⟩
    have fits := h.fits
    have some : t.keys i ≠ symbolIdNone := ne_of_lt (h.rising.below i used)
    have at_i := h.rising.descend_eq fits used
    unfold instFind
    rw [if_neg (not_or.mpr ⟨by omega, some⟩)]
    simp [at_i, Nat.mod_eq_of_lt (show i < ledgerInstruments by omega)]

theorem Keyed.lt_of_instFind (h : Keyed t) (found : t.instFind sym = some i) : i < t.n := (h.instFind_iff.mp found).1

/-- The row of a symbol, looked for from the first bound row on. -/
def scanFind (t : Instruments) (sym : SymbolId) : Option Nat :=
  (List.range t.n).find? fun i => (t.rows i).sym = sym

theorem Keyed.instFind_eq_scan (h : Keyed t) (sym : SymbolId) : t.instFind sym = t.scanFind sym := by
  ext i
  rw [h.instFind_iff, scanFind, List.find?_range_eq_some]
  simp only [decide_eq_true_eq, List.mem_range, Bool.not_eq_true', decide_eq_false_iff_not]
  constructor
  · rintro ⟨used, key⟩
    refine ⟨(h.named i used).trans key, used, fun j lt same => ?_⟩
    have below := h.rising.rises j i lt used
    rw [← h.named j (by omega), same, key] at below
    exact lt_irrefl _ below
  · rintro ⟨key, used, _⟩
    exact ⟨used, (h.named i used).symm.trans key⟩

theorem new_keyed : Keyed new := by
  refine ⟨Nat.zero_le _, ⟨fun j lt => ?_, fun i j _ lt => ?_, fun j _ => rfl⟩, fun j _ => rfl, fun j lt => ?_⟩
  all_goals exact absurd lt (Nat.not_lt_zero j)

theorem Keyed.setRow (h : Keyed t) (used : i < t.n) {r : InstrumentRow}
    (same : r.sym = (t.rows i).sym) : Keyed (t.setRow i r) := by
  refine ⟨h.fits, h.rising, fun j ge => ?_, fun j lt => ?_⟩
  · change t.n ≤ j at ge
    change update t.rows i r j = .free
    rw [update_of_ne (by omega)]
    exact h.free j ge
  · change (update t.rows i r j).sym = t.keys j
    rw [update_apply]
    split
    · subst j
      exact same.trans (h.named i used)
    · exact h.named j lt

/-- What a refresh of row `i` leaves alone. -/
structure Refreshed (i : Nat) (t t' : Instruments) : Prop where
  keys : t'.keys = t.keys
  n : t'.n = t.n
  perpSyms : t'.perpSyms = t.perpSyms
  perpN : t'.perpN = t.perpN
  others : ∀ j, j ≠ i → t'.rows j = t.rows j
  book : ∀ j, (t'.rows j).book = (t.rows j).book

theorem Refreshed.refl (i : Nat) (t : Instruments) : Refreshed i t t := ⟨rfl, rfl, rfl, rfl, fun _ _ => rfl, fun _ => rfl⟩

theorem Refreshed.trans {t'' : Instruments} (first : Refreshed i t t') (second : Refreshed i t' t'') :
    Refreshed i t t'' := ⟨second.keys.trans first.keys, second.n.trans first.n, second.perpSyms.trans first.perpSyms,
    second.perpN.trans first.perpN, fun j ne => (second.others j ne).trans (first.others j ne),
    fun j => (second.book j).trans (first.book j)⟩

theorem setRow_refreshed (t : Instruments) (i : Nat) {r : InstrumentRow} (book : r.book = (t.rows i).book) :
    Refreshed i t (t.setRow i r) := by
  refine ⟨rfl, rfl, rfl, rfl, fun j ne => update_of_ne ne _ _, fun j => ?_⟩
  change (update t.rows i r j).book = _
  rw [update_apply]
  split
  · subst j
    exact book
  · rfl

theorem revalueSlot_refreshed (t : Instruments) (bare : Bool) (i s : Nat) : Refreshed i t (t.revalueSlot bare i s) := by
  let r := t.rows i
  have moved : Refreshed i t (t.moveExposure s (r.exp1e6 s) (r.exposureCtx (r.pos1e6 s))) :=
    ⟨rfl, rfl, rfl, rfl, fun _ _ => rfl, fun _ => rfl⟩
  exact moved.trans (setRow_refreshed _ i rfl)

theorem refreshSlot_refreshed (bare : Bool) (i s : Nat) (t : Instruments) : Refreshed i t (t.refreshSlot bare i s) := by
  have revalued := t.revalueSlot_refreshed bare i s
  unfold refreshSlot
  dsimp only
  split
  · exact .refl i t
  · split
    · exact revalued
    · exact ⟨revalued.keys, revalued.n, revalued.perpSyms, revalued.perpN, revalued.others, revalued.book⟩

theorem refreshInstrument_refreshed (t : Instruments) (i : Nat) : Refreshed i t (t.refreshInstrument i) :=
  loop_invariant (P := fun _ t' => Refreshed i t t') (.refl i t)
    fun s t' _ h => h.trans (refreshSlot_refreshed _ i s t')

theorem Refreshed.keyed (kept : Refreshed i t t') (h : Keyed t) (used : i < t.n) : Keyed t' := by
  refine ⟨kept.n ▸ h.fits, ?_, fun j ge => ?_, fun j lt => ?_⟩
  · rw [kept.n, kept.keys]
    exact h.rising
  · rw [kept.n] at ge
    rw [kept.others j (by omega)]
    exact h.free j ge
  · rw [kept.n] at lt
    rw [kept.keys, ← h.named j lt]
    show (t'.rows j).book.sym = (t.rows j).book.sym
    rw [kept.book j]

theorem InstrumentSpec.sym_some (good : spec.bad = false) : spec.sym ≠ symbolIdNone := by
  intro none
  simp [InstrumentSpec.bad, none] at good

theorem bindInstrument_cases (t : Instruments) (spec : InstrumentSpec) :
    ((t.bindInstrument spec).1 = t ∧ ∃ err, (t.bindInstrument spec).2 = .error err) ∨
    (spec.bad = false ∧ t.instFind spec.sym = none ∧ t.n < ledgerInstruments ∧
      t.bindInstrument spec = (t.insertRow spec, .ok ())) := by
  unfold bindInstrument
  split
  · exact .inl ⟨rfl, _, rfl⟩
  rename_i good
  split
  · exact .inl ⟨rfl, _, rfl⟩
  rename_i fresh
  split
  · exact .inl ⟨rfl, _, rfl⟩
  · rename_i room
    exact .inr ⟨by simpa using good, by simpa using fresh, by omega, rfl⟩

theorem insertRow_rows (t : Instruments) (spec : InstrumentSpec) (j : Nat) :
    (t.insertRow spec).rows j = spec.row ∨ ∃ k, (t.insertRow spec).rows j = t.rows k := by
  have shifted := shiftUp_shifted spec.sym t.n t.keys t.rows
  unfold insertRow
  dsimp only
  generalize shiftUp spec.sym t.n t.keys t.rows = out at shifted ⊢
  rcases Nat.lt_trichotomy j out.1 with lt | rfl | gt
  · rw [update_of_ne (by omega), (shifted.below j lt).2]
    exact .inr ⟨j, rfl⟩
  · exact .inl (update_self ..)
  rw [update_of_ne (by omega)]
  rcases Nat.lt_or_ge t.n j with above | inside
  · exact .inr ⟨j, (shifted.above j above).2⟩
  · exact .inr ⟨j - 1, (shifted.moved j gt inside).2⟩

theorem insertRow_keyed (h : Keyed t) (some : spec.sym ≠ symbolIdNone)
    (fresh : t.instFind spec.sym = none) (room : t.n < ledgerInstruments) : Keyed (t.insertRow spec) := by
  have shifted := shiftUp_shifted spec.sym t.n t.keys t.rows
  have new : ∀ j < t.n, t.keys j ≠ spec.sym := by
    intro j lt same
    have found := h.instFind_iff.mpr ⟨lt, same⟩
    simp [fresh] at found
  unfold insertRow
  dsimp only
  generalize shiftUp spec.sym t.n t.keys t.rows = out at shifted ⊢
  have le := shifted.le
  refine ⟨room, h.rising.insert (lt_symbolIdNone some) new shifted, fun j ge => ?_, fun j lt => ?_⟩
  · change t.n + 1 ≤ j at ge
    change update out.2.2 out.1 spec.row j = .free
    rw [update_of_ne (by omega), (shifted.above j (by omega)).2]
    exact h.free j (by omega)
  · change j < t.n + 1 at lt
    change (update out.2.2 out.1 spec.row j).sym = update out.2.1 out.1 spec.sym j
    rcases Nat.lt_trichotomy j out.1 with low | rfl | high
    · rw [update_of_ne (by omega), update_of_ne (by omega), (shifted.below j low).1, (shifted.below j low).2]
      exact h.named j (by omega)
    · rw [update_self, update_self]
      rfl
    · rw [update_of_ne (by omega), update_of_ne (by omega),
        (shifted.moved j high (by omega)).1, (shifted.moved j high (by omega)).2]
      exact h.named (j - 1) (by omega)

theorem insertRow_found (h : Keyed (t.insertRow spec))
    (found : (t.insertRow spec).instFind spec.sym = some i) : (t.insertRow spec).rows i = spec.row := by
  obtain ⟨used, key⟩ := h.instFind_iff.mp found
  have own : (t.insertRow spec).keys (shiftUp spec.sym t.n t.keys t.rows).1 = spec.sym := update_self ..
  have same := h.rising.index_unique used (own.trans key.symm)
  rw [← same]
  exact update_self ..

end Instruments

end TradingEngine.Router
