import TradingEngine.Router.InstrumentAccounts
import TradingEngine.Router.Routed

/-!
# An order that does not enlarge the position

The exposure of a position is priced the same way before and after an order, so it grows only with the position.
-/

namespace TradingEngine.Router

open Base CoreTypes

section Pricing

variable {a a' b b' : Int}

theorem mul1e6_mono (nonneg : 0 ≤ a) (less : a ≤ a') (price : b ≤ b') : mul1e6 a b ≤ mul1e6 a' b' := by
  rcases Int.le_total b 0 with worthless | positive
  · have none : (a * b).tdiv 1000000 ≤ 0 :=
      Int.tdiv_le_tdiv (by decide) (Int.mul_nonpos_of_nonneg_of_nonpos nonneg worthless)
    rw [mul1e6, if_pos none]
    exact mul1e6_nonneg _ _
  · have product : a * b ≤ a' * b' := Int.mul_le_mul less price positive (nonneg.trans less)
    have quotient := Int.tdiv_le_tdiv (by decide : (0 : Int) < 1000000) product
    have top : 0 ≤ instExposureMax := by decide
    unfold mul1e6
    dsimp only
    split_ifs <;> omega

theorem mul1e6_whole (whole : 1000000 ≤ a) : mul1e6 a instExposureMax = instExposureMax := by
  have product := Int.mul_le_mul_of_nonneg_right whole (show 0 ≤ instExposureMax by decide)
  have quotient := Int.tdiv_le_tdiv (by decide : (0 : Int) < 1000000) product
  rw [Int.mul_tdiv_cancel_left _ (by decide)] at quotient
  have positive : ¬instExposureMax ≤ 0 := by decide
  unfold mul1e6
  dsimp only
  rw [if_neg (by omega), if_pos quotient]

end Pricing

theorem shortIm_covers (index strike : Int) {mark unit : Int} (call : Bool) (scaled : 0 < unit) (marked : 0 < mark) :
    mark ≤ shortImPerContract index strike mark unit call ∨
      shortImPerContract index strike mark unit call = instExposureMax := by
  unfold shortImPerContract
  dsimp only
  generalize (if call = true then strike - index else index - strike) = otm
  generalize (if (3 * index).tdiv 20 - (if otm > 0 then otm else 0) > index.tdiv 10 then
    (3 * index).tdiv 20 - (if otm > 0 then otm else 0) else index.tdiv 10) = rate
  have floor : 0 ≤ (if rate > 0 then rate else 0) := by split_ifs <;> omega
  have part : 0 ≤ ((if rate > 0 then rate else 0) * unit).tdiv 1000000 :=
    Int.tdiv_nonneg (Int.mul_nonneg floor scaled.le) (by decide)
  generalize ((if rate > 0 then rate else 0) * unit).tdiv 1000000 = margin at part
  rw [if_pos marked]
  by_cases held : margin + mark ≥ instExposureMax
  · rw [if_pos held]
    exact .inr rfl
  rw [if_neg held]
  refine .inl ?_
  simp only [i64Wrap, i64Min, instExposureMax] at held ⊢
  omega

namespace InstrumentRow

/-- The mark of a short option fits the largest exposure, or the position is a whole contract at least. -/
def Closeable (r : InstrumentRow) (pos : Int) : Prop :=
  r.law = .option → pos < 0 → r.mark1e6 ≤ instExposureMax ∨ 1000000 ≤ satAbs pos

variable {r : InstrumentRow} {pos next qty inc px : Int} {buy : Bool} {q : Quote}

theorem buyback_le (scaled : 0 < r.unit1e6) (closeable : r.mark1e6 ≤ instExposureMax ∨ 1000000 ≤ satAbs pos)
    (long : 0 ≤ next) (shrinks : next ≤ satAbs pos) :
    mul1e6 next r.mark1e6 ≤
      mul1e6 (satAbs pos) (shortImPerContract r.marginIndex r.strike1e6 r.mark1e6 r.unit1e6 (r.has instCall)) := by
  rcases le_or_gt r.mark1e6 0 with unmarked | marked
  · have flat : mul1e6 next r.mark1e6 ≤ mul1e6 next 0 := mul1e6_mono long (Int.le_refl _) unmarked
    refine flat.trans (le_trans (le_of_eq ?_) (mul1e6_nonneg _ _))
    rw [mul1e6, Int.mul_zero]
    rfl
  · rcases shortIm_covers r.marginIndex r.strike1e6 (r.has instCall) scaled marked with covers | held
    · exact mul1e6_mono long shrinks covers
    rw [held]
    rcases closeable with fits | whole
    · exact mul1e6_mono long shrinks fits
    · rw [mul1e6_whole whole]
      exact mul1e6_le _ _

theorem satAbs_of_long (long : 0 ≤ next) (within : next ≤ i64Max) : satAbs next = next := by
  rw [satAbs, abs_of_nonneg long]
  exact clamp_of_inI64 ⟨(show i64Min ≤ 0 by decide).trans long, within⟩

theorem option_le (scaled : 0 < r.unit1e6) (closeable : pos < 0 → r.mark1e6 ≤ instExposureMax ∨ 1000000 ≤ satAbs pos)
    (shrinks : satAbs next ≤ satAbs pos) (within : next ≤ i64Max) (rises : 0 ≤ pos → 0 ≤ next) (im : Int)
    (margin : pos < 0 ∨ next < 0 → im = shortImPerContract r.marginIndex r.strike1e6 r.mark1e6 r.unit1e6 (r.has instCall)) :
    (if next ≥ 0 then mul1e6 next r.mark1e6 else mul1e6 (satAbs next) im) ≤
      if pos ≥ 0 then mul1e6 (satAbs pos) r.mark1e6 else mul1e6 (satAbs pos) im := by
  by_cases long : 0 ≤ next
  · rw [if_pos long]
    rw [satAbs_of_long long within] at shrinks
    by_cases held : 0 ≤ pos
    · rw [if_pos held]
      exact mul1e6_mono long shrinks (Int.le_refl _)
    · rw [if_neg held, margin (.inl (by omega))]
      exact buyback_le scaled (closeable (by omega)) long shrinks
  · rw [if_neg long, if_neg (fun held => long (rises held))]
    exact mul1e6_mono (satAbs_nonneg next) shrinks (Int.le_refl _)

theorem quote_le (quoted : r.quote pos next qty inc buy px = .ok q) (scaled : r.law = .option → 0 < r.unit1e6)
    (closeable : r.Closeable pos) (shrinks : satAbs next ≤ satAbs pos) (within : next ≤ i64Max)
    (rises : r.law = .option → 0 ≤ pos → 0 ≤ next) : q.next ≤ q.now := by
  have fewer := satAbs_nonneg next
  unfold quote at quoted
  cases law : r.law with
  | none =>
    rw [law] at quoted
    cases quoted
  | inverse =>
    rw [law] at quoted
    cases quoted
    exact mul1e6_mono fewer shrinks (Int.le_refl _)
  | option =>
    simp only [law] at quoted
    iterate 4
      split at quoted
      · cases quoted
    cases quoted
    exact option_le (scaled law) (closeable law) shrinks within (rises law) _ fun short => if_pos short
  | spot | linear =>
    simp only [law] at quoted
    repeat' split at quoted
    all_goals cases quoted
    exact mul1e6_mono fewer shrinks (Int.le_refl _)

theorem quote_refusal {why : InstRefusal} (refused : r.quote pos next qty inc buy px = .error why) : why ≠ .none := by
  unfold quote at refused
  dsimp only at refused
  repeat' split at refused
  all_goals
    cases refused
    try exact fun same => (by cases same)

def terms (r : InstrumentRow) : Law × Int := (r.law, r.unit1e6)

end InstrumentRow

namespace Instruments

variable {t t' t'' : Instruments}

def SameTerms (t t' : Instruments) : Prop := ∀ j, (t'.rows j).terms = (t.rows j).terms

theorem SameTerms.refl (t : Instruments) : SameTerms t t := fun _ => rfl

theorem SameTerms.trans (first : SameTerms t t') (second : SameTerms t' t'') : SameTerms t t'' :=
  fun j => (second j).trans (first j)

theorem setRow_terms {i : Nat} {r : InstrumentRow} (same : r.terms = (t.rows i).terms) : SameTerms t (t.setRow i r) := by
  intro j
  change (Function.update t.rows i r j).terms = _
  rw [Function.update_apply]
  split
  · subst j
    exact same
  · rfl

theorem refreshInstrument_terms (t : Instruments) (i : Nat) : SameTerms t (t.refreshInstrument i) := by
  intro j
  change ((t.refreshInstrument i).rows j).book.terms = (t.rows j).book.terms
  rw [(t.refreshInstrument_refreshed i).book j]

theorem setRow_refresh_terms {i : Nat} {r : InstrumentRow} (same : r.terms = (t.rows i).terms) :
    SameTerms t ((t.setRow i r).refreshInstrument i) := (setRow_terms same).trans (refreshInstrument_terms _ i)

theorem onMark_terms (t : Instruments) (sym : SymbolId) (mark index : Int) (tsNs : Nat) :
    SameTerms t (t.onMark sym mark index tsNs) := by
  unfold onMark
  split
  · exact .refl t
  split_ifs
  · exact .refl t
  · exact fun _ => rfl
  · exact setRow_refresh_terms rfl

theorem expireMark_terms (t : Instruments) (nowNs i : Nat) : SameTerms t (t.expireMark nowNs i) := by
  unfold expireMark
  dsimp only
  have unmarked : SameTerms t { t.setRow i { t.rows i with mark1e6 := 0 } with
      marksExpired := bump u64Max t.marksExpired } := setRow_terms (r := { t.rows i with mark1e6 := 0 }) rfl
  have stale : SameTerms t (t.setRow i { t.rows i with flags := (t.rows i).flags ||| instStale }) := setRow_terms rfl
  split_ifs
  · exact stale
  · exact .refl t
  · exact unmarked.trans (refreshInstrument_terms _ i)
  · exact .refl t

theorem expireMarks_terms (t : Instruments) (nowNs : Nat) : SameTerms t (t.expireMarks nowNs) :=
  loop_invariant (P := fun _ t' => SameTerms t t') (.refl t)
    fun i t' _ kept => kept.trans (expireMark_terms t' nowNs i)

theorem afterSummary_terms (r : InstrumentRow) (summary : OptSummary) :
    (r.afterSummary summary).row.terms = r.terms := by
  unfold InstrumentRow.afterSummary
  dsimp only
  split_ifs <;> rfl

theorem onOptSummary_terms (t : Instruments) (summary : OptSummary) : SameTerms t (t.onOptSummary summary) := by
  unfold onOptSummary
  split
  · exact .refl t
  rename_i i found
  split
  · exact .refl t
  have written := setRow_terms (afterSummary_terms (t.rows i) summary)
  dsimp only
  generalize (t.rows i).afterSummary summary = out at written
  have counted : SameTerms t (if out.refused = true then
      { t.setRow i out.row with marksRefused := bump u64Max (t.setRow i out.row).marksRefused }
    else t.setRow i out.row) := by
    split_ifs
    · exact written
    · exact written
  split_ifs at counted ⊢
  · exact counted.trans (refreshInstrument_terms _ i)
  · exact counted.trans (refreshInstrument_terms _ i)
  · exact counted
  · exact counted

def Scaled (t : Instruments) : Prop := ∀ i, (t.rows i).law = .option → 0 < (t.rows i).unit1e6

theorem SameTerms.scaled (kept : SameTerms t t') (scaled : Scaled t) : Scaled t' := by
  intro i option
  obtain ⟨law, unit⟩ := Prod.ext_iff.mp (kept i)
  change (t'.rows i).law = (t.rows i).law at law
  change (t'.rows i).unit1e6 = (t.rows i).unit1e6 at unit
  rw [unit]
  exact scaled i (law.symm.trans option)

theorem insertRow_scaled (scaled : Scaled t) {spec : InstrumentSpec} (good : spec.bad = false) :
    Scaled (t.insertRow spec) := by
  intro i option
  rcases t.insertRow_rows spec i with new | ⟨k, old⟩
  · rw [new] at option ⊢
    simp only [InstrumentSpec.bad, decide_eq_false_iff_not, not_or, not_and, not_le] at good
    exact good.2.2.1 (.inr option)
  · rw [old] at option ⊢
    exact scaled k option

theorem bindInstrument_scaled (scaled : Scaled t) (spec : InstrumentSpec) : Scaled (t.bindInstrument spec).1 := by
  rcases t.bindInstrument_cases spec with ⟨same, _⟩ | ⟨good, _, _, inserted⟩
  · exact same.symm ▸ scaled
  · rw [inserted]
    exact insertRow_scaled scaled good

theorem bindPerp_scaled (scaled : Scaled t) (sym : SymbolId) (slot : Nat) : Scaled (t.bindPerp sym slot).1 := by
  have bound := bindInstrument_scaled scaled ⟨sym, .linear, 0, slot, 0, 0⟩
  unfold bindPerp
  split_ifs
  · exact scaled
  · exact scaled
  generalize t.bindInstrument ⟨sym, .linear, 0, slot, 0, 0⟩ = out at bound
  obtain ⟨t', answer⟩ := out
  cases answer with
  | error err => exact bound
  | ok _ =>
    dsimp only
    split
    · exact bound
    rename_i i found
    have flagged : SameTerms t' (t'.setRow i { t'.rows i with flags := (t'.rows i).flags ||| instPerp }) := setRow_terms rfl
    exact flagged.scaled bound

end Instruments

namespace Ledger

theorem bookFill_scaled {l : Ledger} (scaled : l.inst.Scaled) (fill : Fill) : (l.bookFill fill).inst.Scaled := by
  rcases l.bookFill_cases fill with ⟨_, same⟩ | ⟨_, _, _, same⟩ | ⟨_, _, i, found, booked⟩ | ⟨_, _, _, booked⟩
  · rw [same]
    exact scaled
  · rw [same]
    exact scaled
  · rw [booked]
    unfold bookInstrumentFill
    dsimp only
    split_ifs
    all_goals
      refine Instruments.SameTerms.scaled ?_ scaled
      exact Instruments.setRow_refresh_terms rfl
  · rw [booked]
    exact scaled

theorem step_scaled {l : Ledger} (scaled : l.inst.Scaled) (op : Op) : (l.step op).inst.Scaled := by
  cases op with
  | bookFill fill => exact bookFill_scaled scaled fill
  | bind venue family outcome yes =>
    change (l.bind venue family outcome yes).inst.Scaled
    exact (l.bind_sameBooks venue family outcome yes).inst.symm ▸ scaled
  | settle venue family outcome =>
    change (l.settle venue family outcome).inst.Scaled
    exact (l.settle_sameBooks venue family outcome).inst.symm ▸ scaled
  | bindInstrument spec => exact Instruments.bindInstrument_scaled scaled spec
  | bindPerp sym slot => exact Instruments.bindPerp_scaled scaled sym slot
  | seedPerp sym pos avgPx dayOpen =>
    change (l.seedPerp sym pos avgPx dayOpen).1.inst.Scaled
    rcases l.seedPerp_cases sym pos avgPx dayOpen with same | ⟨i, _, _, _, _, seeded⟩
    · rw [same]
      exact scaled
    · rw [seeded]
      refine Instruments.SameTerms.scaled ?_ scaled
      exact Instruments.setRow_refresh_terms rfl
  | onMark sym mark index tsNs => exact (l.inst.onMark_terms sym mark index tsNs).scaled scaled
  | expireMarks nowNs => exact (l.inst.expireMarks_terms nowNs).scaled scaled
  | onOptSummary summary => exact (l.inst.onOptSummary_terms summary).scaled scaled
  | observeMonoClock monoNs =>
    change (l.observeMonoClock monoNs).inst.Scaled
    unfold observeMonoClock
    split <;> exact scaled
  | markSlotSeeded slot =>
    change (l.markSlotSeeded slot).inst.Scaled
    unfold markSlotSeeded
    split <;> exact scaled
  | _ => exact scaled

theorem reachable_scaled {l : Ledger} (reach : l.Reachable) : l.inst.Scaled :=
  reachable_invariant (P := fun l => l.inst.Scaled) (fun _ _ option => (by cases option))
    (fun _ op scaled => step_scaled scaled op) reach

section Clamps

variable {l : Ledger} {sym : SymbolId} {slot : Nat} {qty : Int} {buy : Bool} {px : Int} {exclude : Option Nat}
  {perp : Bool} {p : InstProbe}

theorem probe_priced (judged : l.probe sym slot qty buy px exclude perp = some p) (passed : p.refusal = .none)
    (open_ : p.exit = false) :
    ∃ i, l.inst.instFind sym = some i ∧ 0 < qty ∧ let r := l.inst.rows i
      let st := l.standing (r.pos1e6 slot) sym slot buy exclude perp
      ∃ inc q, r.quote st.pos (moved st.pos qty buy) qty inc buy px = .ok q ∧ p = l.priced r slot st q qty buy px perp := by
  unfold probe at judged
  split at judged
  · cases judged
  rename_i i found
  dsimp only at judged
  split at judged
  · cases judged
    cases passed
  split at judged
  · cases judged
    cases passed
  rename_i ready
  split at judged
  · cases judged
    cases open_
  split at judged
  · rename_i why refused
    cases judged
    exact absurd passed (InstrumentRow.quote_refusal refused)
  · rename_i q quoted
    cases judged
    exact ⟨i, found, by omega, _, q, quoted, rfl⟩

theorem priced_le (l : Ledger) {r : InstrumentRow} (slot : Nat) {st : Standing} {q : Quote} (qty : Int) (buy : Bool)
    (px : Int) (perp : Bool) (less : q.next ≤ q.now) :
    (l.priced r slot st q qty buy px perp).projected1e6 ≤ (l.priced r slot st q qty buy px perp).current1e6 := by
  unfold priced
  cases perp
  · exact satAdd_mono (Int.le_refl _) less
  · exact satAdd_mono (Int.le_refl _) less

theorem moved_le (pos qty : Int) (buy : Bool) : moved pos qty buy ≤ i64Max := by
  unfold moved
  split_ifs
  · exact (satAdd_inI64 _ _).2
  · exact (satSub_inI64 _ _).2

theorem moved_long {pos : Int} (bought : buy = true) (held : 0 ≤ pos) (more : 0 < qty) : 0 ≤ moved pos qty buy := by
  rw [moved, if_pos bought, satAdd_of_nonneg held more.le]
  exact le_min (by omega) (by decide)

theorem judgeInstrument_instance (l : Ledger) (order : Order) (verb : RiskVerb) (caps : SlotCaps) (limits : PerpLimits)
    (less : p.projected1e6 ≤ p.current1e6) : (l.judgeInstrument order verb caps limits p).2 ≠ some .capInstance := by
  unfold judgeInstrument
  dsimp only
  repeat' split
  all_goals intro same
  all_goals first | omega | cases same

theorem judgeInstrument_perp (l : Ledger) (order : Order) (verb : RiskVerb) (caps : SlotCaps) (limits : PerpLimits)
    (less : p.inventoryNext1e6 ≤ p.inventoryNow1e6) : (l.judgeInstrument order verb caps limits p).2 ≠ some .capPerp := by
  unfold judgeInstrument
  dsimp only
  repeat' split
  all_goals intro same
  all_goals first | omega | cases same

/-- An order that leaves the position no larger than it met it adds no exposure, and is not refused by the cap on the
slot's. A perp's order that leaves the position and the work on its side no larger is not refused by the cap on the
perp's. -/
theorem reduction_is_never_capped (l : Ledger) (reach : l.Reachable) (sym : SymbolId) (slot : Nat) (qty : Int)
    (buy : Bool) (px : Int) (exclude : Option Nat) (perp : Bool) (p : InstProbe)
    (judged : l.probe sym slot qty buy px exclude perp = some p) (passed : p.refusal = .none) (trades : p.exit = false) :
    ∃ i, l.inst.instFind sym = some i ∧
      let r := l.inst.rows i
      let st := l.standing (r.pos1e6 slot) sym slot buy exclude perp
      ((r.law = .option → buy = true) → r.Closeable st.pos → satAbs (moved st.pos qty buy) ≤ satAbs st.pos →
        p.projected1e6 ≤ p.current1e6 ∧
          ∀ (l' : Ledger) (order : Order) (verb : RiskVerb) (caps : SlotCaps) (limits : PerpLimits),
            (l'.judgeInstrument order verb caps limits p).2 ≠ some .capInstance) ∧
      (perp = true → satAbs (moved st.worked qty buy) ≤ satAbs st.worked →
        p.inventoryNext1e6 ≤ p.inventoryNow1e6 ∧
          ∀ (l' : Ledger) (order : Order) (verb : RiskVerb) (caps : SlotCaps) (limits : PerpLimits),
            (l'.judgeInstrument order verb caps limits p).2 ≠ some .capPerp) := by
  obtain ⟨i, found, more, inc, q, quoted, rfl⟩ := probe_priced judged passed trades
  refine ⟨i, found, fun bought closeable shrinks => ?_, fun isPerp shrinks => ?_⟩
  · have cheaper : q.next ≤ q.now := InstrumentRow.quote_le quoted (reachable_scaled reach i) closeable shrinks
      (moved_le _ _ _) fun option held => moved_long (bought option) held more
    refine ⟨priced_le l slot qty buy px perp cheaper, fun l' order verb caps limits => ?_⟩
    exact judgeInstrument_instance l' order verb caps limits (priced_le l slot qty buy px perp cheaper)
  · subst isPerp
    have less : (l.priced (l.inst.rows i) slot _ q qty buy px true).inventoryNext1e6 ≤ _ :=
      mul1e6_mono (satAbs_nonneg _) shrinks (Int.le_refl _)
    exact ⟨less, fun l' order verb caps limits => judgeInstrument_perp l' order verb caps limits less⟩

end Clamps

def tenLong : Ledger :=
  run step (new ⟨0, 0⟩)
    [.bindInstrument ⟨5, .linear, 0, ownerNone, 0, 0⟩,
      .bookFill ⟨1, 5, .bid, 2, .venue, false, false, 1000000, 10000000, 7⟩]

def flipOrder : InstProbe := ⟨.none, false, 15000000, 10000000, 5000000, 5000000, 0, 0, 0⟩

/-- Fifteen sold out of ten long are five short: less at stake, whatever the cap. -/
theorem tenLong_flip_is_never_capped :
    tenLong.probe 5 2 15000000 false 900000 none false = some flipOrder ∧
      flipOrder.projected1e6 ≤ flipOrder.current1e6 := by
  have judged : tenLong.probe 5 2 15000000 false 900000 none false = some flipOrder := by decide +kernel
  obtain ⟨i, found, spared, _⟩ := reduction_is_never_capped tenLong ⟨_, _, rfl⟩ 5 2 15000000 false 900000 none false
    flipOrder judged rfl rfl
  have row : i = 0 := Option.some.inj (found.symm.trans (by decide +kernel))
  subst row
  have linear : (tenLong.inst.rows 0).law = .linear := by decide +kernel
  refine ⟨judged, (spared (fun option => ?_) (fun option => ?_) (by decide +kernel)).1⟩
  all_goals cases linear.symm.trans option

/-- A slot short a little less than one contract of an option whose mark is above the largest exposure. -/
def dearShort : Ledger :=
  run step (new ⟨0, 0⟩)
    [.bindInstrument ⟨7, .option, instWritable ||| instCall, ownerNone, 1000000, 1000000⟩,
      .onOptSummary ⟨1, 7, true, 9223372036854775807, 9223372036854775807⟩,
      .bookFill ⟨2, 7, .ask, 2, .venue, false, false, 1000000, 999999, 1⟩]

/-- Bought back to the same size long, it counts more than before: the short's margin is held at the largest exposure,
below the mark. -/
theorem dearShort_buyback_is_capped :
    dearShort.Reachable ∧ dearShort.inst.instFind 7 = some 0 ∧
      (dearShort.standing ((dearShort.inst.rows 0).pos1e6 2) 7 2 true none false).pos = -999999 ∧
      moved (-999999) 1999998 true = 999999 ∧
      ∃ p, dearShort.probe 7 2 1999998 true 1 none false = some p ∧ p.refusal = .none ∧ p.exit = false ∧
        p.current1e6 = 9007190247541736 ∧ p.projected1e6 = 9007199254740991 ∧
        (dearShort.judgeInstrument ⟨3, 7, .bid, false, 1, 1999998, 9, 0, 2⟩ .place ⟨1000000, 1000000, 1000000, 10⟩
          ⟨0, 0⟩ p).2 = some .capInstance := by
  refine ⟨⟨_, _, rfl⟩, by decide +kernel, by decide +kernel, by decide,
    ⟨.none, false, 1, 9007190247541736, 9007199254740991, 0, 0, 0, 0⟩, ?_⟩
  decide +kernel

end Ledger

end TradingEngine.Router
