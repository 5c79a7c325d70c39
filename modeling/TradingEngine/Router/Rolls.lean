import TradingEngine.Router.Projection

/-!
# Instance rolls touch only their own row

Rolls arrive as frames that may repeat or cross fills.
-/

namespace TradingEngine.Router

open Base CoreTypes Function FamilyRows

variable {i : Nat}

namespace Resting

theorem dropRestingOn_rows (t : Resting) (yes no : SymbolId) (j : Nat) :
    (t.dropRestingOn yes no).rows j = t.rows j ∨
      ((t.rows j).live = true ∧ ((t.rows j).sym = yes ∨ (t.rows j).sym = no) ∧
        (t.dropRestingOn yes no).rows j = .free) := by
  refine loop_invariant (f := dropRow yes no) (n := t.hi) (s := t)
    (P := fun _ t' => t'.rows j = t.rows j ∨
      ((t.rows j).live = true ∧ ((t.rows j).sym = yes ∨ (t.rows j).sym = no) ∧ t'.rows j = .free))
    (.inl rfl) fun i t' _ kept => ?_
  unfold dropRow
  split
  · exact kept
  rename_i hit
  simp only [not_or, Bool.not_eq_false, not_and_or, not_not] at hit
  have rows : (t'.release i).rows = update t'.rows i .free := by
    unfold release setRow
    by_cases known : (t'.rows i).slot < execSlots <;> by_cases top : i + 1 = t'.hi <;> simp [known, top]
  rw [rows]
  rcases eq_or_ne j i with rfl | other
  · rw [update_self]
    rcases kept with same | ⟨live, leg, _⟩
    · rw [same] at hit
      exact .inr ⟨hit.1, hit.2, rfl⟩
    · exact .inr ⟨live, leg, rfl⟩
  · rw [update_of_ne other]
    exact kept

end Resting

def FamilyRow.Formed (r : FamilyRow) : Prop := r.outcome ≠ 0 ∧ r.symYes ≠ symbolIdNone ∧
  symbolOrdinal r.symYes < symbolOrdinalMask ∧ r.family < ledgerRows ∧ r.symNo = r.symYes + 1

namespace FamilyRows

variable {rows : FamilyRows} {venue family outcome : Nat}

def Owns (rows : FamilyRows) (i venue family : Nat) : Prop :=
  i < ledgerRows ∧ (rows i).isBound = true ∧ (rows i).family = family ∧ (rows i).venue = venue

/-- Row `i` holds this outcome of the venue. -/
def HoldsOutcome (rows : FamilyRows) (i venue outcome : Nat) : Prop :=
  i < ledgerRows ∧ (rows i).isBound = true ∧ (rows i).outcome = outcome ∧ (rows i).venue = venue

theorem familyRow_some (found : rows.familyRow venue family = some i) : rows.Owns i venue family := by
  obtain ⟨lt, hit, _⟩ := firstBelow_some found
  exact ⟨lt, of_decide_eq_true hit⟩

theorem familyRow_none (missing : rows.familyRow venue family = none) (i : Nat) : ¬ rows.Owns i venue family := by
  rintro ⟨lt, owns⟩
  exact absurd owns (of_decide_eq_false (firstBelow_none missing i lt))

theorem freeRow_some (found : rows.freeRow = some i) : i < ledgerRows ∧ (rows i).isBound = false := by
  obtain ⟨lt, hit, _⟩ := firstBelow_some found
  exact ⟨lt, by simpa using hit⟩

theorem outcomeRow_some (found : rows.outcomeRow venue outcome = some i) : rows.HoldsOutcome i venue outcome := by
  obtain ⟨lt, hit, _⟩ := firstBelow_some found
  exact ⟨lt, of_decide_eq_true hit⟩

theorem outcomeRow_settled (rows : FamilyRows) (i venue outcome : Nat) :
    outcomeRow (update rows i { rows i with settled := true }) venue outcome = rows.outcomeRow venue outcome := by
  unfold outcomeRow
  congr
  funext j
  rcases eq_or_ne j i with rfl | other
  · rw [update_self]
    rfl
  · rw [update_of_ne other]

theorem outcomeRow_none (missing : rows.outcomeRow venue outcome = none) : ¬ rows.HoldsOutcome i venue outcome := by
  rintro ⟨lt, holds⟩
  exact absurd holds (of_decide_eq_false (firstBelow_none missing i lt))

/-- A venue's family has at most one row, rows without a family are free, the others are formed. -/
structure Rolled (rows : FamilyRows) : Prop where
  unique : ∀ i j venue family, rows.Owns i venue family → rows.Owns j venue family → i = j
  free : ∀ i, (rows i).isBound = false → rows i = .free
  formed : ∀ i, (rows i).isBound = true → FamilyRow.Formed (rows i)

def NeverShort (rows : FamilyRows) : Prop := ∀ i s, 0 ≤ (rows i).posYes1e6 s ∧ 0 ≤ (rows i).posNo1e6 s

theorem Rolled.alone (h : rows.Rolled) (lt : i < ledgerRows) (bound : (rows i).isBound = true) :
    ∀ j, j ≠ i → ¬ rows.Owns j (rows i).venue (rows i).family :=
  fun j other owns => other (h.unique j i _ _ owns ⟨lt, bound, rfl, rfl⟩)

theorem Rolled.set (h : rows.Rolled) {r : FamilyRow} (bound : r.isBound = true)
    (formed : FamilyRow.Formed r) (alone : ∀ j, j ≠ i → ¬ rows.Owns j r.venue r.family) :
    Rolled (update rows i r) := by
  have elsewhere : ∀ j venue family, j ≠ i → Owns (update rows i r) j venue family → rows.Owns j venue family := by
    intro j venue family other owns
    unfold Owns at owns
    rwa [update_of_ne other] at owns
  have own : ∀ venue family, Owns (update rows i r) i venue family → r.venue = venue ∧ r.family = family := by
    intro venue family owns
    unfold Owns at owns
    rw [update_self] at owns
    exact ⟨owns.2.2.2, owns.2.2.1⟩
  refine ⟨fun j k venue family first second => ?_, fun j unbound => ?_, fun j isBound => ?_⟩
  · by_cases other : j = i <;> by_cases other' : k = i
    · rw [other, other']
    · obtain ⟨rfl, rfl⟩ := own venue family (other ▸ first)
      exact absurd (elsewhere k _ _ other' second) (alone k other')
    · subst other'
      obtain ⟨rfl, rfl⟩ := own venue family second
      exact absurd (elsewhere j _ _ other first) (alone j other)
    · exact h.unique j k venue family (elsewhere j _ _ other first) (elsewhere k _ _ other' second)
  · rcases eq_or_ne j i with rfl | other
    · rw [update_self, bound] at unbound
      contradiction
    · rw [update_of_ne other] at unbound ⊢
      exact h.free j unbound
  · rcases eq_or_ne j i with rfl | other
    · rwa [update_self]
    · rw [update_of_ne other] at isBound ⊢
      exact h.formed j isBound

theorem NeverShort.set (h : rows.NeverShort) {r : FamilyRow}
    (nonneg : ∀ s, 0 ≤ r.posYes1e6 s ∧ 0 ≤ r.posNo1e6 s) : NeverShort (update rows i r) := by
  intro j s
  rcases eq_or_ne j i with rfl | other
  · rw [update_self]
    exact nonneg s
  · rw [update_of_ne other]
    exact h j s

theorem apply_nonneg {leg qty : Int} (held : 0 ≤ leg) (nonneg : 0 ≤ qty) (buy : Bool) : 0 ≤ (apply leg qty buy).1 := by
  unfold apply
  cases buy with
  | true =>
    simp only [if_true, satAdd, i64Clamp, i64Min, i64Max]
    omega
  | false =>
    simp only [Bool.false_eq_true, if_false]
    split
    · exact Int.le_refl 0
    · exact Int.not_lt.mp ‹_›

end FamilyRows

namespace Ledger

variable {l : Ledger} {venue family outcome : Nat} {yes : SymbolId}

section

variable (h : l.rows.Rolled)

include h

theorem bind_rolled (venue family outcome : Nat) (yes : SymbolId) : (l.bind venue family outcome yes).rows.Rolled := by
  rcases l.bind_cases venue family outcome yes with
    ⟨_, refused⟩ | ⟨sound, ⟨_, _, _, _, same⟩ | ⟨i, found, _, taken⟩ | ⟨missing, i, _, _, fresh⟩⟩
  · rw [refused]
    exact h
  · rw [same]
    exact h
  · obtain ⟨lt, bound, ownFamily, _⟩ := familyRow_some found
    simp only [BadRoll, not_or, not_le] at sound
    rw [taken]
    exact h.set bound ⟨sound.1, sound.2.1, sound.2.2.2, ownFamily ▸ sound.2.2.1, rfl⟩ (h.alone lt bound)
  · simp only [BadRoll, not_or, not_le] at sound
    rw [fresh]
    refine h.set ?_ ⟨sound.1, sound.2.1, sound.2.2.2, sound.2.2.1, rfl⟩ fun j _ => familyRow_none missing j
    have known : family < 64 := sound.2.2.1
    exact decide_eq_true (show family ≠ 255 by omega)

theorem settle_rolled (venue family outcome : Nat) : (l.settle venue family outcome).rows.Rolled := by
  rcases l.settle_cases venue family outcome with ⟨_, unmatched⟩ | ⟨_, i, found, ⟨_, same⟩ | ⟨_, _, settled⟩⟩
  · rw [unmatched]
    exact h
  · rw [same]
    exact h
  · obtain ⟨lt, bound, _, _⟩ := outcomeRow_some found
    rw [settled]
    exact h.set bound (h.formed i bound) (h.alone lt bound)

theorem bookFill_rolled (fill : Fill) : (l.bookFill fill).rows.Rolled := by
  rcases l.bookFill_rows fill with same | ⟨i, found, _, booked⟩
  · rw [same]
    exact h
  obtain ⟨lt, held⟩ := legRow_some found
  have bound : (l.rows i).isBound = true := by
    simp only [FamilyRow.holds, Bool.and_eq_true] at held
    exact held.1
  rw [booked, legFilled]
  split
  · exact h.set bound (h.formed i bound) (h.alone lt bound)
  · exact h.set bound (h.formed i bound) (h.alone lt bound)

theorem step_rolled (op : Op) : (l.step op).rows.Rolled := by
  rw [step_rows]
  cases op with
  | bookFill fill => exact bookFill_rolled h fill
  | bind venue family outcome yes => exact bind_rolled h venue family outcome yes
  | settle venue family outcome => exact settle_rolled h venue family outcome
  | _ => exact h

end

theorem reachable_rolled (reach : l.Reachable) : l.rows.Rolled := reachable_invariant (P := fun l => l.rows.Rolled)
    (fun _ => ⟨fun _ _ _ _ owns => by simp [FamilyRows.Owns, new, FamilyRow.free, FamilyRow.isBound] at owns,
      fun _ _ => rfl, fun _ bound => by simp [new, FamilyRow.free, FamilyRow.isBound] at bound⟩)
    (fun _ op h => step_rolled h op) reach

/-- A fill reports a quantity that is not negative. -/
def Op.Sized : Op → Prop
  | .bookFill fill => 0 ≤ fill.qty
  | _ => True

theorem bookFill_neverShort (h : l.rows.NeverShort) {fill : Fill} (sized : 0 ≤ fill.qty) :
    (l.bookFill fill).rows.NeverShort := by
  rcases l.bookFill_rows fill with same | ⟨i, _, _, booked⟩
  · rw [same]
    exact h
  have filled : ∀ (leg : Nat → Int) (s : Nat), (∀ s, 0 ≤ leg s) →
      0 ≤ update leg fill.strategyId (apply (leg fill.strategyId) fill.qty fill.buy).1 s := by
    intro leg s held
    rcases eq_or_ne s fill.strategyId with rfl | other
    · rw [update_self]
      exact apply_nonneg (held _) sized _
    · rw [update_of_ne other]
      exact held s
  rw [booked]
  refine h.set fun s => ?_
  unfold legFilled
  split
  · exact ⟨filled _ s fun s => (h i s).1, (h i s).2⟩
  · exact ⟨(h i s).1, filled _ s fun s => (h i s).2⟩

theorem bind_neverShort (h : l.rows.NeverShort) (venue family outcome : Nat) (yes : SymbolId) :
    (l.bind venue family outcome yes).rows.NeverShort := by
  rcases l.bind_cases venue family outcome yes with
    ⟨_, refused⟩ | ⟨_, ⟨_, _, _, _, same⟩ | ⟨i, _, _, taken⟩ | ⟨_, i, _, _, fresh⟩⟩
  · rw [refused]
    exact h
  · rw [same]
    exact h
  · rw [taken]
    exact h.set fun _ => ⟨Int.le_refl 0, Int.le_refl 0⟩
  · rw [fresh]
    exact h.set fun _ => ⟨Int.le_refl 0, Int.le_refl 0⟩

theorem settle_neverShort (h : l.rows.NeverShort) (venue family outcome : Nat) :
    (l.settle venue family outcome).rows.NeverShort := by
  rcases l.settle_cases venue family outcome with ⟨_, unmatched⟩ | ⟨_, i, _, ⟨_, same⟩ | ⟨_, _, settled⟩⟩
  · rw [unmatched]
    exact h
  · rw [same]
    exact h
  · rw [settled]
    exact h.set fun s => h i s

theorem step_neverShort (l : Ledger) (op : Op) (sized : op.Sized) (h : l.rows.NeverShort) :
    (l.step op).rows.NeverShort := by
  rw [step_rows]
  cases op with
  | bookFill fill => exact bookFill_neverShort h sized
  | bind venue family outcome yes => exact bind_neverShort h venue family outcome yes
  | settle venue family outcome => exact settle_neverShort h venue family outcome
  | _ => exact h

/-- The two tables agree on every position of row `i`. -/
def SamePositions (l l' : Ledger) (i : Nat) : Prop :=
  (l'.rows i).posYes1e6 = (l.rows i).posYes1e6 ∧ (l'.rows i).posNo1e6 = (l.rows i).posNo1e6

/-- Every resting order but the live ones on row `i`'s legs is as it was. -/
def RestingKept (l l' : Ledger) (i : Nat) : Prop :=
  ∀ j, l'.resting.rows j = l.resting.rows j ∨
    ((l.resting.rows j).live = true ∧
      ((l.resting.rows j).sym = (l.rows i).symYes ∨ (l.resting.rows j).sym = (l.rows i).symNo))

/-- The rows and the resting orders are as they were. -/
def Untouched (l l' : Ledger) : Prop := l'.rows = l.rows ∧ l'.resting = l.resting

theorem dropped_restingKept {l' : Ledger}
    (dropped : l'.resting = l.resting.dropRestingOn (l.rows i).symYes (l.rows i).symNo) : RestingKept l l' i := by
  intro j
  rw [dropped]
  rcases l.resting.dropRestingOn_rows (l.rows i).symYes (l.rows i).symNo j with same | ⟨live, leg, _⟩
  · exact .inl same
  · exact .inr ⟨live, leg⟩

theorem settle_touches (l : Ledger) (venue family outcome : Nat) :
    (∀ i, SamePositions l (l.settle venue family outcome) i) ∧ (Untouched l (l.settle venue family outcome) ∨
      ∃ i, l.rows.HoldsOutcome i venue outcome ∧ RestingKept l (l.settle venue family outcome) i ∧
        ∀ j, j ≠ i → (l.settle venue family outcome).rows j = l.rows j) := by
  rcases l.settle_cases venue family outcome with ⟨_, unmatched⟩ | ⟨_, i, found, ⟨_, same⟩ | ⟨_, _, settled⟩⟩
  · rw [unmatched]
    exact ⟨fun _ => ⟨rfl, rfl⟩, .inl ⟨rfl, rfl⟩⟩
  · rw [same]
    exact ⟨fun _ => ⟨rfl, rfl⟩, .inl ⟨rfl, rfl⟩⟩
  rw [settled]
  refine ⟨fun j => ?_, .inr ⟨i, outcomeRow_some found, dropped_restingKept rfl, fun j other => update_of_ne other ..⟩⟩
  unfold SamePositions
  rcases eq_or_ne j i with rfl | other
  · simp
  · simp [update_of_ne other]

theorem settle_settled (named : outcome ≠ 0) (found : l.rows.outcomeRow venue outcome = some i)
    (settled : (l.rows i).settled = true) (family : Nat) : l.settle venue family outcome = l := by
  rcases l.settle_cases venue family outcome with ⟨zero | missing, _⟩ | ⟨_, j, found', ⟨_, same⟩ | ⟨live, _⟩⟩
  · exact absurd zero named
  · simp [found] at missing
  · exact same
  · rw [found] at found'
    cases found'
    simp [settled] at live

theorem settle_unmatched (missed : outcome = 0 ∨ l.rows.outcomeRow venue outcome = none) (family : Nat) :
    l.settle venue family outcome = l.settleUnmatched := by
  rcases l.settle_cases venue family outcome with ⟨_, unmatched⟩ | ⟨named, i, found, _⟩
  · exact unmatched
  · rcases missed with zero | missing
    · exact absurd zero named
    · simp [found] at missing

theorem settle_twice (l : Ledger) (venue family again outcome : Nat) :
    Untouched (l.settle venue family outcome) ((l.settle venue family outcome).settle venue again outcome) ∧
    (outcome ≠ 0 → (∃ i, l.rows.HoldsOutcome i venue outcome) →
      (l.settle venue family outcome).settle venue again outcome = l.settle venue family outcome) := by
  rcases l.settle_cases venue family outcome with
    ⟨missed, unmatched⟩ | ⟨named, i, found, ⟨settled, same⟩ | ⟨_, _, done⟩⟩
  · rw [unmatched]
    have still : l.settleUnmatched.settle venue again outcome = l.settleUnmatched.settleUnmatched :=
      settle_unmatched (l := l.settleUnmatched) missed again
    refine ⟨by rw [still]; exact ⟨rfl, rfl⟩, fun named ⟨i, holds⟩ => ?_⟩
    exact absurd holds (outcomeRow_none (missed.resolve_left named))
  · rw [same, settle_settled named found settled again]
    exact ⟨⟨rfl, rfl⟩, fun _ _ => rfl⟩
  · rw [done, settle_settled (i := i) named]
    · exact ⟨⟨rfl, rfl⟩, fun _ _ => rfl⟩
    · exact (l.rows.outcomeRow_settled i venue outcome).trans found
    · simp

theorem bind_touches (h : l.rows.Rolled) (venue family outcome : Nat) (yes : SymbolId) :
    (∀ j, (l.bind venue family outcome yes).rows j = l.rows j ∨
      (l.bind venue family outcome yes).rows.Owns j venue family) ∧
    (((∀ j, SamePositions l (l.bind venue family outcome yes) j) ∧ (l.bind venue family outcome yes).resting = l.resting) ∨
      ∃ i, l.rows.Owns i venue family ∧ ((l.rows i).outcome ≠ outcome ∨ (l.rows i).settled = true) ∧
        (∀ j, j ≠ i → SamePositions l (l.bind venue family outcome yes) j) ∧
        RestingKept l (l.bind venue family outcome yes) i) := by
  rcases l.bind_cases venue family outcome yes with
    ⟨_, refused⟩ | ⟨sound, ⟨_, _, _, _, same⟩ | ⟨i, found, differs, taken⟩ | ⟨_, i, _, free, fresh⟩⟩
  · rw [refused]
    exact ⟨fun _ => .inl rfl, .inl ⟨fun _ => ⟨rfl, rfl⟩, rfl⟩⟩
  · rw [same]
    exact ⟨fun _ => .inl rfl, .inl ⟨fun _ => ⟨rfl, rfl⟩, rfl⟩⟩
  · have owns := familyRow_some found
    rw [taken]
    refine ⟨fun j => ?_, .inr ⟨i, owns, differs, fun j other => ?_, dropped_restingKept rfl⟩⟩
    · rcases eq_or_ne j i with rfl | other
      · refine .inr ⟨owns.1, ?_⟩
        simpa [retireRow, FamilyRow.isBound] using owns.2
      · exact .inl (update_of_ne other ..)
    · simp [SamePositions, retireRow, update_of_ne other]
  · obtain ⟨lt, unbound⟩ := freeRow_some free
    have flat := h.free i unbound
    have known : family ≠ familyNone := by
      simp only [BadRoll, not_or, not_le, ledgerRows] at sound
      unfold familyNone
      omega
    rw [fresh]
    refine ⟨fun j => ?_, .inl ⟨fun j => ?_, rfl⟩⟩
    · rcases eq_or_ne j i with rfl | other
      · exact .inr ⟨lt, by simp [FamilyRow.isBound, instanceRow, known]⟩
      · exact .inl (update_of_ne other ..)
    · rcases eq_or_ne j i with rfl | other
      · simp [SamePositions, flat, FamilyRow.free, instanceRow]
      · simp [SamePositions, update_of_ne other]

theorem bind_repeated (h : l.rows.Rolled) (owns : l.rows.Owns i venue family) (live : (l.rows i).settled = false) :
    l.bind venue family (l.rows i).outcome (l.rows i).symYes = l := by
  obtain ⟨named, symbol, ordinal, known, _⟩ := h.formed i owns.2.1
  rcases l.bind_cases venue family (l.rows i).outcome (l.rows i).symYes with
    ⟨bad | ⟨missing, _⟩, _⟩ | ⟨_, ⟨_, _, _, _, same⟩ | ⟨j, found, differs, _⟩ | ⟨missing, _⟩⟩
  · rw [owns.2.2.1] at known
    rcases bad with zero | none | large | last
    · exact absurd zero named
    · exact absurd none symbol
    · exact absurd large (Nat.not_le.mpr known)
    · exact absurd last (Nat.not_le.mpr ordinal)
  · exact absurd owns (familyRow_none missing i)
  · exact same
  · cases h.unique j i venue family (familyRow_some found) owns
    simp [live] at differs
  · exact absurd owns (familyRow_none missing i)

theorem bind_refused (refused : BadRoll family outcome yes ∨
      ((∀ i, ¬ l.rows.Owns i venue family) ∧ ∀ i < ledgerRows, (l.rows i).isBound = true)) :
    Untouched l (l.bind venue family outcome yes) := by
  rcases l.bind_cases venue family outcome yes with
    ⟨_, same⟩ | ⟨sound, ⟨_, _, _, _, same⟩ | ⟨j, found, _⟩ | ⟨_, j, _, free, _⟩⟩
  · rw [same]
    exact ⟨rfl, rfl⟩
  · rw [same]
    exact ⟨rfl, rfl⟩
  · obtain ⟨new, _⟩ := refused.resolve_left sound
    exact absurd (familyRow_some found) (new j)
  · obtain ⟨lt, unbound⟩ := freeRow_some free
    obtain ⟨_, full⟩ := refused.resolve_left sound
    simp [full j lt] at unbound

/-- After any history of calls: a venue's family has one row at most, no leg is short while fills
have sizes, and a roll touches only the row it names. -/
theorem rolls_touch_only_their_row (anchor : WallAnchor) (ops : List Op) :
    let l := run step (new anchor) ops
    (∀ i j venue family, l.rows.Owns i venue family → l.rows.Owns j venue family → i = j) ∧
    ((∀ op ∈ ops, op.Sized) → l.rows.NeverShort) ∧
    (∀ venue family again outcome,
      let settled := l.settle venue family outcome
      SameBooks l settled ∧ (∀ i, SamePositions l settled i) ∧
      (Untouched l settled ∨ ∃ i, l.rows.HoldsOutcome i venue outcome ∧ RestingKept l settled i ∧
        ∀ j, j ≠ i → settled.rows j = l.rows j) ∧
      Untouched settled (settled.settle venue again outcome) ∧
      (outcome ≠ 0 → (∃ i, l.rows.HoldsOutcome i venue outcome) →
        settled.settle venue again outcome = settled)) ∧
    (∀ venue family outcome yes,
      let bound := l.bind venue family outcome yes
      SameBooks l bound ∧ (∀ j, bound.rows j = l.rows j ∨ bound.rows.Owns j venue family) ∧
      (((∀ j, SamePositions l bound j) ∧ bound.resting = l.resting) ∨
        ∃ i, l.rows.Owns i venue family ∧ ((l.rows i).outcome ≠ outcome ∨ (l.rows i).settled = true) ∧
          (∀ j, j ≠ i → SamePositions l bound j) ∧ RestingKept l bound i) ∧
      (BadRoll family outcome yes ∨
          ((∀ i, ¬ l.rows.Owns i venue family) ∧ ∀ i < ledgerRows, (l.rows i).isBound = true) →
        Untouched l bound)) ∧
    (∀ i venue family, l.rows.Owns i venue family → (l.rows i).settled = false →
      l.bind venue family (l.rows i).outcome (l.rows i).symYes = l) := by
  intro l
  have rolled : l.rows.Rolled := reachable_rolled ⟨anchor, ops, rfl⟩
  refine ⟨rolled.unique, fun sized => ?_, fun venue family again outcome => ?_, fun venue family outcome yes => ?_,
    fun i venue family owns live => bind_repeated rolled owns live⟩
  · exact run_invariant_of (P := fun l : Ledger => l.rows.NeverShort) (fun _ _ => ⟨Int.le_refl 0, Int.le_refl 0⟩)
      step_neverShort sized
  · obtain ⟨positions, touched⟩ := l.settle_touches venue family outcome
    obtain ⟨untouched, idle⟩ := l.settle_twice venue family again outcome
    exact ⟨l.settle_sameBooks venue family outcome, positions, touched, untouched, idle⟩
  · obtain ⟨own, touched⟩ := bind_touches rolled venue family outcome yes
    exact ⟨l.bind_sameBooks venue family outcome yes, own, touched, fun refused => bind_refused refused⟩

/-- A slot is long an instance that settles with an order resting: the position stays, and the frame
repeated changes nothing. -/
theorem settled_long_stays :
    let l := run step (new ⟨0, 0⟩) [.bind 4 0 20182 67108964, .onSubmit 9 3 67108964 2000000 true 500000,
      .bookFill ⟨1, 67108964, .bid, 3, .venue, false, false, 500000, 8000000, 1⟩]
    l.rows.NeverShort ∧ ((l.settle 4 0 20182).rows 0).posYes1e6 3 = 8000000 ∧
      (l.settle 4 0 20182).settle 4 0 20182 = l.settle 4 0 20182 := by
  intro l
  obtain ⟨_, long, settles, _⟩ := rolls_touch_only_their_row ⟨0, 0⟩ [.bind 4 0 20182 67108964,
    .onSubmit 9 3 67108964 2000000 true 500000,
    .bookFill ⟨1, 67108964, .bid, 3, .venue, false, false, 500000, 8000000, 1⟩]
  obtain ⟨_, positions, _, _, idle⟩ := settles 4 0 0 20182
  refine ⟨long (by simp [Op.Sized]), ?_, idle (by decide) ⟨0, ?_⟩⟩
  · rw [(positions 0).1]
    decide +kernel
  · unfold FamilyRows.HoldsOutcome
    decide +kernel

/-- The ledger takes a fill's sign on trust: a bought quantity below zero leaves the leg short. And
a settle no row matches counts every time it is repeated. -/
theorem negative_fill_goes_short :
    let l := run step (new ⟨0, 0⟩) [.bind 4 0 20182 67108964,
      .bookFill ⟨1, 67108964, .bid, 3, .venue, false, false, 500000, -8000000, 1⟩]
    (l.rows 0).posYes1e6 3 < 0 ∧
      ((l.settle 4 0 20190).settle 4 0 20190).counters ≠ (l.settle 4 0 20190).counters := by
  decide +kernel

end Ledger

end TradingEngine.Router
