import TradingEngine.Router.Halt

/-!
# One slot, two arms

A slot that two arms trade is judged on one signal: the worse of each observation, the session result summed.
-/

namespace TradingEngine.Router

open Base

variable {sig a : HaltSignal} {lim : HaltLimits}

def HaltSignal.merged (a b : HaltSignal) : HaltSignal where
  wsGapNs := max a.wsGapNs b.wsGapNs
  reconDriftUsd1e6 := max a.reconDriftUsd1e6 b.reconDriftUsd1e6
  rejectStreak := max a.rejectStreak b.rejectStreak
  assetRefusalStreak := max a.assetRefusalStreak b.assetRefusalStreak
  budgetFloorBreached := a.budgetFloorBreached || b.budgetFloorBreached
  reconciled := a.reconciled && b.reconciled
  pnlJudged := a.pnlJudged && b.pnlJudged
  venueLock := a.venueLock || b.venueLock
  marginRisk := a.marginRisk || b.marginRisk
  gatewayHalted := a.gatewayHalted || b.gatewayHalted
  aloRejectPermille := max a.aloRejectPermille b.aloRejectPermille
  reconAgeNs := max a.reconAgeNs b.reconAgeNs
  pnlDeltaUsd1e6 := satAdd a.pnlDeltaUsd1e6 b.pnlDeltaUsd1e6
  resyncPending := a.resyncPending || b.resyncPending

theorem HaltSignal.merged_comm (a b : HaltSignal) : a.merged b = b.merged a := by
  simp only [HaltSignal.merged, satAdd, max_comm, Bool.or_comm, Bool.and_comm, add_comm]

def Faulty (sig : HaltSignal) (lim : HaltLimits) : Prop :=
  sig.venueLock = true ∨ sig.marginRisk = true ∨
  (lim.rejectStreak > 0 ∧ sig.rejectStreak ≥ lim.rejectStreak) ∨
  (lim.assetRefusalStreak > 0 ∧ sig.assetRefusalStreak ≥ lim.assetRefusalStreak) ∨
  sig.budgetFloorBreached = true ∨ sig.gatewayHalted = true ∨
  (lim.aloRejectPermille > 0 ∧ sig.aloRejectPermille ≥ lim.aloRejectPermille) ∨
  (lim.reconDriftUsd1e6 > 0 ∧ sig.reconDriftUsd1e6 ≥ lim.reconDriftUsd1e6)

theorem faulty_of_trigger (halted : triggerFor sig lim ≠ .none)
    (notGain : triggerFor sig lim ≠ .pnlGain) (notLoss : triggerFor sig lim ≠ .pnlLoss) : Faulty sig lim := by
  by_contra sound
  simp only [Faulty, not_or] at sound
  obtain ⟨lock, margin, reject, asset, floor, gateway, alo, drift⟩ := sound
  simp only [triggerFor, lock, margin, reject, asset, floor, gateway, alo, drift, if_false, Bool.false_eq_true] at *
  grind

theorem Faulty.trigger (faulty : Faulty sig lim) : triggerFor sig lim ≠ .none := by
  unfold Faulty at faulty
  unfold triggerFor
  grind

theorem Faulty.merged (faulty : Faulty a lim) (b : HaltSignal) : Faulty (a.merged b) lim := by
  unfold Faulty at faulty ⊢
  simp only [HaltSignal.merged, Bool.or_eq_true]
  rcases faulty with lock | margin | ⟨set, streak⟩ | ⟨set, streak⟩ | floor | gateway | ⟨set, rate⟩ | ⟨set, drift⟩
  · exact .inl (.inl lock)
  · exact .inr (.inl (.inl margin))
  · exact .inr (.inr (.inl ⟨set, le_max_of_le_left streak⟩))
  · exact .inr (.inr (.inr (.inl ⟨set, le_max_of_le_left streak⟩)))
  · exact .inr (.inr (.inr (.inr (.inl (.inl floor)))))
  · exact .inr (.inr (.inr (.inr (.inr (.inl (.inl gateway))))))
  · exact .inr (.inr (.inr (.inr (.inr (.inr (.inl ⟨set, le_max_of_le_left rate⟩))))))
  · exact .inr (.inr (.inr (.inr (.inr (.inr (.inr ⟨set, le_max_of_le_left drift⟩))))))

/-- One observation past its threshold, in milliseconds. -/
def overdue (limit : Int) (ns : Nat) : Prop := limit > 0 ∧ ns > 0 ∧ ((ns / 1000000 : Nat) : Int) ≥ limit

instance (limit : Int) (ns : Nat) : Decidable (overdue limit ns) := inferInstanceAs (Decidable (_ ∧ _))

theorem overdue_max {limit : Int} {m n : Nat} : overdue limit (max m n) ↔ overdue limit m ∨ overdue limit n := by
  unfold overdue
  rcases le_total m n with le | le
  · have slower : m / 1000000 ≤ n / 1000000 := Nat.div_le_div_right le
    rw [max_eq_right le]
    omega
  · have slower : n / 1000000 ≤ m / 1000000 := Nat.div_le_div_right le
    rw [max_eq_left le]
    omega

theorem holdFor_eq (sig : HaltSignal) (lim : HaltLimits) :
    holdFor sig lim = (if overdue lim.wsGapMs sig.wsGapNs then holdWsGap else 0) |||
      (if overdue lim.reconStaleMs sig.reconAgeNs then holdReconStale else 0) := rfl

theorem holdFor_merged (a b : HaltSignal) (lim : HaltLimits) :
    holdFor (a.merged b) lim = holdFor a lim ||| holdFor b lim := by
  have union : ∀ (p q : Prop) [Decidable p] [Decidable q] (bit : BitVec 8),
      (if p ∨ q then bit else 0) = (if p then bit else 0) ||| (if q then bit else 0) := by
    intro p q _ _ bit
    by_cases p <;> by_cases q <;> simp [*]
  simp only [holdFor_eq, HaltSignal.merged, overdue_max, union]
  ac_rfl

theorem holdClear_iff : holdClear sig lim = true ↔ sig.resyncPending = false ∧ holdFor sig lim = 0 := by
  simp [holdClear]

theorem holdClear_merged {b : HaltSignal} :
    holdClear (a.merged b) lim = true ↔ holdClear a lim = true ∧ holdClear b lim = true := by
  have neither : holdFor a lim ||| holdFor b lim = 0 ↔ holdFor a lim = 0 ∧ holdFor b lim = 0 := BitVec.or_eq_zero_iff
  rw [holdClear_iff, holdClear_iff, holdClear_iff, holdFor_merged, neither]
  simp only [HaltSignal.merged, Bool.or_eq_false_iff]
  tauto

/-- A signal merged from two arms halts on every fault of either, holds what either holds, clears when both
do, and counts as reconciled only when both are. -/
theorem merged_never_less_halted (a b : HaltSignal) (lim : HaltLimits) :
    ((triggerFor a lim ≠ .none ∧ triggerFor a lim ≠ .pnlGain ∧ triggerFor a lim ≠ .pnlLoss) →
      triggerFor (a.merged b) lim ≠ .none) ∧
    holdFor (a.merged b) lim = holdFor a lim ||| holdFor b lim ∧
    (holdClear (a.merged b) lim = true ↔ holdClear a lim = true ∧ holdClear b lim = true) ∧
    ((a.merged b).reconciled = true → a.reconciled = true ∧ b.reconciled = true) ∧
    a.merged b = b.merged a := by
  refine ⟨?_, holdFor_merged a b lim, holdClear_merged, ?_, a.merged_comm b⟩
  · rintro ⟨halted, notGain, notLoss⟩
    exact ((faulty_of_trigger halted notGain notLoss).merged b).trigger
  · intro reconciled
    simpa [HaltSignal.merged] using reconciled

/-- Nothing observed. -/
def HaltSignal.unseen : HaltSignal :=
  ⟨0, 0, 0, 0, false, false, false, false, false, false, 0, 0, 0, false⟩

/-- The arms of a venue that trade a slot. -/
inductive Serves where
  | neither
  | onlyA
  | onlyB
  | both
  deriving DecidableEq, Repr

def haltSignalFor (serves : Serves) (a b : HaltSignal) : HaltSignal :=
  match serves with
  | .onlyA => a
  | .onlyB => b
  | .both => a.merged b
  | .neither => .unseen

theorem haltSignalFor_faulty {serves : Serves} {b : HaltSignal}
    (traded : (serves = .onlyA ∨ serves = .both) ∧ Faulty a lim ∨ (serves = .onlyB ∨ serves = .both) ∧ Faulty b lim) :
    triggerFor (haltSignalFor serves a b) lim ≠ .none := by
  apply Faulty.trigger
  rcases traded with ⟨rfl | rfl, faulty⟩ | ⟨rfl | rfl, faulty⟩
  · exact faulty
  · exact faulty.merged b
  · exact faulty
  · rw [haltSignalFor, HaltSignal.merged_comm]
    exact faulty.merged a

end TradingEngine.Router
