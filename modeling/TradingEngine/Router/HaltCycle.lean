import TradingEngine.Router.Routed

/-!
# The cancel cycle over whole runs

What a slot owes the arm can be read off the events alone.
-/

namespace TradingEngine.Router

open Base CoreTypes Function List HaltState

/-! ### What the events say is owed -/

def CancelPhase.next (slot : Nat) (phase : CancelPhase) : HaltEvent → CancelPhase
  | .halted s => if s = slot then .wanted else phase
  | .held s inFlight => if s = slot ∧ inFlight = false ∧ phase ≠ .retry then .wanted else phase
  | .requested s taken => if s = slot then if taken then .asked else .retry else phase
  | .restingCleared s => if s = slot then .none else phase
  | .released _ => phase
  | .answered _ _ => phase

def owed (slot : Nat) (past : List HaltEvent) : CancelPhase := past.foldl (CancelPhase.next slot) .none

/-- An event after which an earlier request of the slot no longer counts. -/
def HaltEvent.Supersedes (slot : Nat) (e : HaltEvent) : Prop :=
  e = .halted slot ∨ e = .held slot false ∨ ∃ taken, e = .requested slot taken

/-- The arm answered clear to a request it took, and nothing came between that calls for a new one. -/
def Confirmed (slot : Nat) (past : List HaltEvent) : Prop :=
  ∃ before since, past = before ++ .requested slot true :: since ++ [.answered slot .clear] ∧
    ∀ e ∈ since, ¬ e.Supersedes slot

section Owed

variable {slot s : Nat} {past : List HaltEvent}

theorem owed_concat (slot : Nat) (past : List HaltEvent) (e : HaltEvent) :
    owed slot (past ++ [e]) = (owed slot past).next slot e := by
  simp [owed]

theorem asked_since (asked : owed slot past = .asked) :
    ∃ before since, past = before ++ .requested slot true :: since ∧ ∀ e ∈ since, ¬ e.Supersedes slot := by
  induction past using reverseRecOn with
  | nil => simp [owed] at asked
  | append_singleton past e ih =>
    rw [owed_concat] at asked
    -- either this event is the request, or it left the phase alone
    by_cases here : e = .requested slot true
    · exact ⟨past, [], by rw [here], by simp⟩
    have kept : owed slot past = .asked ∧ ¬ e.Supersedes slot := by
      cases e <;> grind [CancelPhase.next, HaltEvent.Supersedes]
    obtain ⟨before, since, rfl, quiet⟩ := ih kept.1
    refine ⟨before, since ++ [e], by simp, fun x member => ?_⟩
    rcases mem_append.mp member with earlier | last
    · exact quiet x earlier
    · rw [mem_singleton.mp last]
      exact kept.2

theorem owed_since {taken : Bool} {since : List HaltEvent}
    (unasked : ∀ e ∈ since, ∀ again, e ≠ .requested slot again) (unclear : .restingCleared slot ∉ since) :
    owed slot (past ++ .requested slot taken :: since) ≠ .none ∧
      (taken = false → owed slot (past ++ .requested slot taken :: since) ≠ .asked) := by
  induction since using reverseRecOn with
  | nil =>
    rw [owed_concat]
    cases taken <;> simp [CancelPhase.next]
  | append_singleton since e ih =>
    have earlier := ih (fun x member => unasked x (by simp [member])) (fun member => unclear (by simp [member]))
    have this := unasked e (by simp)
    have clear : e ≠ .restingCleared slot := fun same => unclear (by simp [same])
    rw [← cons_append, ← append_assoc, owed_concat]
    generalize owed slot (past ++ .requested slot taken :: since) = phase at earlier ⊢
    cases e <;> grind [CancelPhase.next]

end Owed

/-! ### One step of the state -/

/-- The phase is what the events say, an owed cancel stops its slot, and the resting count is
cleared on the arm's word alone. -/
structure Cycle (h : HaltState) (past : List HaltEvent) : Prop where
  phase : ∀ slot, h.pendingCancel slot = owed slot past
  stopped : ∀ slot, h.pendingCancel slot ≠ .none → h.isHalted slot = true ∨ h.isHeld slot = true
  covered : ∀ slot, .held slot true ∈ past → h.isHalted slot = true
  confirmed : Clean (fun before e => ∀ slot, e = .restingCleared slot → Confirmed slot before) past

namespace Cycle

variable {h k : HaltState} {past : List HaltEvent} {slot : Nat}

theorem start : Cycle .new [] :=
  ⟨fun _ => rfl, fun _ owed => absurd rfl owed, fun _ member => absurd member (by simp), clean_nil _⟩

section

variable (c : Cycle h past)

include c

theorem same (reasons : k.reasons = h.reasons) (pending : k.pendingCancel = h.pendingCancel)
    (gap : k.heldGap = h.heldGap) (stale : k.heldStale = h.heldStale) : Cycle k past := by
  have halted : ∀ slot, k.isHalted slot = h.isHalted slot := by
    intro slot
    simp only [isHalted, reason, reasons]
  have held : ∀ slot, k.isHeld slot = h.isHeld slot := by
    intro slot
    simp only [isHeld, gap, stale]
  refine ⟨fun slot => ?_, fun slot owes => ?_, fun slot member => ?_, c.confirmed⟩
  · rw [pending]
    exact c.phase slot
  · rw [pending] at owes
    rw [halted, held]
    exact c.stopped slot owes
  · rw [halted]
    exact c.covered slot member

theorem emit {e : HaltEvent} (phase : ∀ slot, k.pendingCancel slot = (h.pendingCancel slot).next slot e)
    (halted : ∀ slot, h.isHalted slot = true → k.isHalted slot = true)
    (stopped : ∀ slot, k.pendingCancel slot ≠ .none → k.isHalted slot = true ∨ k.isHeld slot = true)
    (covered : ∀ slot, e = .held slot true → k.isHalted slot = true := by nofun)
    (confirmed : ∀ slot, e = .restingCleared slot → Confirmed slot past := by nofun) : Cycle k (past ++ [e]) := by
  refine ⟨fun slot => ?_, stopped, fun slot member => ?_, c.confirmed.concat confirmed⟩
  · rw [owed_concat, ← c.phase slot]
    exact phase slot
  · rcases mem_append.mp member with earlier | last
    · exact halted slot (c.covered slot earlier)
    · exact covered slot (mem_singleton.mp last).symm

theorem answered (slot : Nat) (state : CancelAllState) : Cycle h (past ++ [.answered slot state]) :=
  c.emit (fun _ => rfl) (fun _ halted => halted) c.stopped

theorem requested (owes : h.pendingCancel slot ≠ .none) (taken : Bool) :
    Cycle (h.setPending slot (if taken then .asked else .retry)) (past ++ [.requested slot taken]) := by
  refine c.emit (fun s => ?_) (fun _ halted => halted) (fun s still => ?_)
  · rcases eq_or_ne s slot with rfl | other
    · simp [setPending, CancelPhase.next]
    · simp [setPending, CancelPhase.next, other, other.symm]
  · rcases eq_or_ne s slot with rfl | other
    · exact c.stopped s owes
    · refine c.stopped s ?_
      simpa [setPending, other] using still

theorem cleared (asked : h.pendingCancel slot = .asked) :
    Cycle (h.setPending slot .none) (past ++ [.answered slot .clear, .restingCleared slot]) := by
  have word : Confirmed slot (past ++ [.answered slot .clear]) := by
    obtain ⟨before, since, rfl, quiet⟩ := asked_since ((c.phase slot).symm.trans asked)
    exact ⟨before, since, rfl, quiet⟩
  rw [← singleton_append, ← append_assoc]
  refine (c.answered slot .clear).emit (fun s => ?_) (fun _ halted => halted) (fun s still => ?_)
    (by nofun) (fun s e => ?_)
  · rcases eq_or_ne s slot with rfl | other
    · simp [setPending, CancelPhase.next]
    · simp [setPending, CancelPhase.next, other, other.symm]
  · rcases eq_or_ne s slot with rfl | other
    · simp [setPending] at still
    · exact c.stopped s (by simpa [setPending, other] using still)
  · obtain ⟨rfl⟩ := e
    exact word

end

theorem isHalted_iff (h : HaltState) (slot : Nat) :
    h.isHalted slot = true ↔ slot < execSlots ∧ (h.reasons slot).isHalted = true := by
  unfold isHalted reason
  split
  · exact ⟨fun halted => absurd halted (by decide), fun ⟨lt, _⟩ => by omega⟩
  · exact ⟨fun halted => ⟨by omega, halted⟩, And.right⟩

theorem latch (c : Cycle h past) (slot : Nat) (why : HaltReason) :
    Cycle (h.latch slot why).1 (past ++ if (h.latch slot why).2 then [.halted slot] else []) := by
  unfold HaltState.latch
  split
  · simpa using c
  rename_i edge
  push Not at edge
  obtain ⟨known, reason, _⟩ := edge
  have halted : ∀ s, s = slot ∨ h.isHalted s = true → ((update h.reasons slot why) s).isHalted = true ∧ s < execSlots := by
    intro s cause
    rcases eq_or_ne s slot with rfl | other
    · rw [update_self]
      exact ⟨by simpa using reason, known⟩
    · rw [update_of_ne other]
      obtain ⟨lt, was⟩ := (isHalted_iff h s).mp (cause.resolve_left other)
      exact ⟨was, lt⟩
  refine c.emit (fun s => ?_) (fun s was => ?_) (fun s owes => ?_)
  · rcases eq_or_ne s slot with rfl | other
    · simp [setPending, CancelPhase.next]
    · simp [setPending, CancelPhase.next, other, other.symm]
  · exact (isHalted_iff _ s).mpr (halted s (.inr was)).symm
  · rcases eq_or_ne s slot with rfl | other
    · exact .inl ((isHalted_iff _ s).mpr (halted s (.inl rfl)).symm)
    · rcases c.stopped s (by simpa [setPending, other] using owes) with was | held
      · exact .inl ((isHalted_iff _ s).mpr (halted s (.inr was)).symm)
      · exact .inr held

theorem isHeld_holdBits {s : Nat} {bits : BitVec 8} (held : h.isHeld s = true) :
    (h.holdBits slot bits).isHeld s = true := by
  simp only [isHeld, holdBits, Bool.and_eq_true, Bool.or_eq_true] at held ⊢
  refine ⟨held.1, ?_⟩
  rcases eq_or_ne s slot with rfl | other
  · rw [update_self, update_self]
    rcases held.2 with gap | stale
    · exact .inl (by rw [gap]; rfl)
    · exact .inr (by rw [stale]; rfl)
  · rw [update_of_ne other, update_of_ne other]
    exact held.2

theorem holdBits_isHeld {bits : BitVec 8} (known : slot < execSlots)
    (names : bits &&& holdWsGap ≠ 0 ∨ bits &&& holdReconStale ≠ 0) : (h.holdBits slot bits).isHeld slot = true := by
  simp only [isHeld, holdBits, update_self, Bool.and_eq_true, Bool.or_eq_true, decide_eq_true_eq]
  exact ⟨known, names.imp .inr .inr⟩

theorem hold (c : Cycle h past) (slot : Nat) {bits : BitVec 8}
    (names : bits ≠ 0 → bits &&& holdWsGap ≠ 0 ∨ bits &&& holdReconStale ≠ 0) :
    Cycle (h.hold slot bits).1
      (past ++ if (h.hold slot bits).2 then [.held slot (h.pendingCancel slot = .asked)] else []) := by
  unfold HaltState.hold
  split
  · simpa using c
  rename_i some
  push Not at some
  obtain ⟨known, some⟩ := some
  split
  · -- more bits of a hold already there
    simp only [Bool.false_eq_true, if_false, append_nil]
    refine ⟨c.phase, fun s owes => (c.stopped s owes).imp id isHeld_holdBits, c.covered, c.confirmed⟩
  rename_i free
  have edge : (h.holdBits slot bits).isHeld slot = true := holdBits_isHeld known (names some)
  have unheld : h.isHeld slot = false := by simp_all [isHeld]
  have halted : ∀ (k : HaltState) s, (if k.pendingCancel slot = .none then k.setPending slot .wanted
      else k).isHalted s = k.isHalted s := by
    intro k s
    split <;> rfl
  have held : ∀ (k : HaltState) s, (if k.pendingCancel slot = .none then k.setPending slot .wanted
      else k).isHeld s = k.isHeld s := by
    intro k s
    split <;> rfl
  refine c.emit (fun s => ?_) (fun s was => (halted _ s).trans was) (fun s owes => ?_) (fun s e => ?_)
  · rcases eq_or_ne s slot with rfl | other
    · cases phase : h.pendingCancel s <;> simp [holdBits, setPending, CancelPhase.next, phase]
    · cases phase : h.pendingCancel slot <;>
        simp [holdBits, setPending, CancelPhase.next, phase, other, other.symm]
  · rcases eq_or_ne s slot with rfl | other
    · exact .inr ((held _ s).trans edge)
    have before : h.pendingCancel s ≠ .none := by
      cases phase : h.pendingCancel slot <;>
        simpa [holdBits, setPending, phase, other] using owes
    exact (c.stopped s before).imp (halted _ s).trans fun was => (held _ s).trans (isHeld_holdBits was)
  · obtain ⟨rfl, asked⟩ := HaltEvent.held.inj e
    rw [decide_eq_true_eq] at asked
    rcases c.stopped slot (by rw [asked]; decide) with was | was
    · exact (halted _ slot).trans was
    · rw [unheld] at was
      exact absurd was (by decide)

theorem release (c : Cycle h past) (slot : Nat) :
    Cycle (h.release slot).1 (past ++ if (h.release slot).2 then [.released slot] else []) := by
  unfold HaltState.release
  split
  · simpa using c
  rename_i free
  push Not at free
  refine c.emit (fun _ => rfl) (fun _ was => was) (fun s owes => ?_)
  have other : s ≠ slot := by
    rintro rfl
    exact owes free.2
  refine (c.stopped s owes).imp id fun held => ?_
  simpa [isHeld, other] using held

end Cycle

theorem holdFor_names (sig : HaltSignal) (lim : HaltLimits) (some : holdFor sig lim ≠ 0) :
    holdFor sig lim &&& holdWsGap ≠ 0 ∨ holdFor sig lim &&& holdReconStale ≠ 0 := by
  unfold holdFor at some ⊢
  dsimp only at some ⊢
  split_ifs at some ⊢
  · decide
  · decide
  · decide
  · exact absurd rfl some

namespace RoutedDispatcher

variable {d : RoutedDispatcher} {past : List HaltEvent} {slot : Nat}

theorem cancelSlot_cycle (known : slot < execSlots) (asked : d.halt.pendingCancel slot = .asked) (arm : ArmAnswers)
    (c : ∀ taken, Cycle (d.halt.setPending slot (if taken then .asked else .retry)) (past ++ [.requested slot taken])) :
    Cycle (d.cancelSlot slot arm).1.halt (past ++ (d.cancelSlot slot arm).2) := by
  unfold cancelSlot
  split
  · refine (c false).same ?_ ?_ ?_ ?_ <;> simp [cancelFailed, setPending, known, asked]
  split
  · have asks : (d.halt.setPending slot (if true then .asked else .retry)).pendingCancel slot = .asked := by
      simp [setPending]
    have done := (c true).cleared asks
    rw [append_assoc] at done
    refine done.same ?_ ?_ ?_ ?_ <;> simp [confirmCancel, cancelCleared, setPending, known]
  · have waits := (c true).answered slot arm.after
    rw [append_assoc] at waits
    refine waits.same rfl ?_ rfl rfl
    simp [setPending, ← asked]

def Cycles (d : RoutedDispatcher) (past : List HaltEvent) : Prop := Cycle d.halt past

theorem tryCancelSlot_cycles (slot : Nat) (arm : ArmAnswers) : Keeps Cycles (tryCancelSlot · slot arm) := by
  intro d past (c : Cycle d.halt past)
  change Cycle (d.tryCancelSlot slot arm).1.halt (past ++ (d.tryCancelSlot slot arm).2)
  unfold tryCancelSlot
  rcases Nat.lt_or_ge slot execSlots with known | beyond
  · -- a request from any phase but none: the ask is set first, then the arm answers
    have ask : ∀ e : List HaltEvent, Cycle d.halt (past ++ e) → ∀ k : HaltState, k.reasons = d.halt.reasons →
        k.pendingCancel = update d.halt.pendingCancel slot .asked → k.heldGap = d.halt.heldGap →
        k.heldStale = d.halt.heldStale → d.halt.pendingCancel slot ≠ .none →
        Cycle (cancelSlot { d with halt := k } slot arm).1.halt
          (past ++ (e ++ (cancelSlot { d with halt := k } slot arm).2)) := by
      intro e c k reasons pending gap stale owes
      rw [← append_assoc]
      refine cancelSlot_cycle known (by simp [pending]) arm fun taken => ?_
      refine (c.requested owes taken).same reasons ?_ gap stale
      simp [setPending, pending]
    have requests : ∀ k : HaltState, k.pendingCancel slot = .wanted ∨ k.pendingCancel slot = .retry →
        k.cancelRequested slot = k.setPending slot .asked := fun k due => if_pos ⟨known, due⟩
    unfold cancelPhase
    rw [if_neg (Nat.not_le.mpr known)]
    cases phase : d.halt.pendingCancel slot with
    | none => simpa using c
    | wanted =>
      rw [requests _ (.inl phase)]
      exact ask [] (by simpa using c) _ rfl rfl rfl rfl (by rw [phase]; decide)
    | retry =>
      dsimp only
      split
      · exact c.answered slot .working
      · rw [requests _ (.inr phase)]
        exact ask [_] (c.answered slot arm.before) _ rfl rfl rfl rfl (by rw [phase]; decide)
    | asked =>
      cases arm.before with
      | clear =>
        refine (c.cleared phase).same ?_ ?_ ?_ ?_ <;>
          simp [confirmCancel, cancelCleared, setPending, known]
      | working => exact c.answered slot .working
      | stranded =>
        refine ask [_] (c.answered slot .stranded) _ rfl ?_ rfl rfl (by rw [phase]; decide)
        rw [← phase, update_eq_self]
        rfl
  · unfold cancelPhase
    rw [if_pos beyond]
    simpa using c

end RoutedDispatcher

/-! ### Whole operations -/

/-- What drives the halt machine. -/
inductive HaltOp where
  | haltSlot (slot : Nat) (why : HaltReason) (arm : Nat → ArmAnswers)
  | latchAll (reasons : Nat → HaltReason)
  | pollSlot (slot : Nat) (sig : HaltSignal)
  | releaseSlot (slot : Nat)
  | tryCancelSlot (slot : Nat) (arm : ArmAnswers)

namespace RoutedDispatcher

def halts (d : RoutedDispatcher) : HaltOp → RoutedDispatcher × List HaltEvent
  | .haltSlot slot why arm => d.haltSlot slot why arm
  | .latchAll reasons => d.latchAll reasons
  | .pollSlot slot sig => d.pollSlot slot sig
  | .releaseSlot slot => d.releaseSlot slot
  | .tryCancelSlot slot arm => d.tryCancelSlot slot arm

section Keeping

variable {I : RoutedDispatcher → List HaltEvent → Prop}

theorem tryCancelSlots_keeps (cancel : ∀ slot arm, Keeps I (tryCancelSlot · slot arm)) (arm : Nat → ArmAnswers) :
    Keeps I (tryCancelSlots · arm) :=
  Keeps.ite (Keeps.quiet fun _ _ h => h) (Keeps.sweep (fun slot => cancel slot (arm slot)) execSlots)

theorem latchAll_keeps (latch : ∀ slot why, Keeps I (latchSlot · slot why)) (reasons : Nat → HaltReason) :
    Keeps I (latchAll · reasons) := Keeps.sweep (fun slot => latch slot (reasons slot)) execSlots

theorem haltSlot_keeps (latch : ∀ slot why, Keeps I (latchSlot · slot why))
    (cancel : ∀ slot arm, Keeps I (tryCancelSlot · slot arm)) (slot : Nat) (why : HaltReason)
    (arm : Nat → ArmAnswers) : Keeps I (haltSlot · slot why arm) :=
  Keeps.ite (latch slot why) ((latch slot why).andThen (tryCancelSlots_keeps cancel arm))

theorem pollHold_keeps (hold : ∀ slot sig lim, Keeps I (holdSlot · slot (holdFor sig lim)))
    (release : ∀ slot, Keeps I (releaseSlot · slot)) (slot : Nat) (sig : HaltSignal) (lim : HaltLimits) :
    Keeps I (pollHold · slot sig lim) :=
  Keeps.ite (hold slot sig lim) (Keeps.ite (release slot) (Keeps.quiet fun _ _ h => h))

theorem pollSlot_keeps (seed : ∀ (d : RoutedDispatcher) slot past, I d past →
      I { d with ledger := d.ledger.step (.markSlotSeeded slot) } past)
    (latch : ∀ slot why, Keeps I (latchSlot · slot why))
    (hold : ∀ slot sig lim, Keeps I (holdSlot · slot (holdFor sig lim)))
    (release : ∀ slot, Keeps I (releaseSlot · slot)) (slot : Nat) (sig : HaltSignal) :
    Keeps I (pollSlot · slot sig) := by
  intro d past h
  change I (d.pollSlot slot sig).1 (past ++ (d.pollSlot slot sig).2)
  unfold pollSlot
  split
  · rwa [append_nil]
  cases d.route.haltsAt slot with
  | none => rwa [append_nil]
  | some lim =>
    refine (latch slot (triggerFor sig lim)).andThen (pollHold_keeps hold release slot sig lim) _ past ?_
    split
    · exact seed d slot past h
    · exact h

theorem halts_keeps (seed : ∀ (d : RoutedDispatcher) slot past, I d past →
      I { d with ledger := d.ledger.step (.markSlotSeeded slot) } past)
    (latch : ∀ slot why, Keeps I (latchSlot · slot why))
    (hold : ∀ slot sig lim, Keeps I (holdSlot · slot (holdFor sig lim)))
    (release : ∀ slot, Keeps I (releaseSlot · slot))
    (cancel : ∀ slot arm, Keeps I (tryCancelSlot · slot arm)) (op : HaltOp) : Keeps I (halts · op) := by
  cases op with
  | haltSlot slot why arm => exact haltSlot_keeps latch cancel slot why arm
  | latchAll reasons => exact latchAll_keeps latch reasons
  | pollSlot slot sig => exact pollSlot_keeps seed latch hold release slot sig
  | releaseSlot slot => exact release slot
  | tryCancelSlot slot arm => exact cancel slot arm

end Keeping

theorem latchSlot_cycles (slot : Nat) (why : HaltReason) : Keeps Cycles (latchSlot · slot why) := by
  intro d past (c : Cycle d.halt past)
  change Cycle (d.latchSlot slot why).1.halt (past ++ (d.latchSlot slot why).2)
  unfold latchSlot
  split
  · rwa [append_nil]
  · exact c.latch slot why

theorem halts_cycles (op : HaltOp) : Keeps Cycles (halts · op) := halts_keeps (fun _ _ _ c => c) latchSlot_cycles
    (fun slot sig lim _ _ c => Cycle.hold c slot (holdFor_names sig lim)) (fun slot _ _ c => Cycle.release c slot)
    tryCancelSlot_cycles op

/-! ### What a step leaves alone -/

variable {d : RoutedDispatcher} {slot : Nat}

def SameStops (h k : HaltState) : Prop :=
  k.reasons = h.reasons ∧ k.heldGap = h.heldGap ∧ k.heldStale = h.heldStale

theorem tryCancelSlot_stops (d : RoutedDispatcher) (slot : Nat) (arm : ArmAnswers) :
    SameStops d.halt (d.tryCancelSlot slot arm).1.halt := by
  unfold tryCancelSlot cancelSlot confirmCancel cancelRequested cancelFailed cancelCleared
  dsimp only
  repeat' split
  all_goals exact ⟨rfl, rfl, rfl⟩

/-- The resting orders change only together with the event that says so. -/
def RestingUnless (resting : Resting) (d : RoutedDispatcher) (past : List HaltEvent) : Prop :=
  (∀ slot, .restingCleared slot ∉ past) → d.ledger.resting = resting

theorem RestingUnless.grow {resting : Resting} {d k : RoutedDispatcher} {past : List HaltEvent}
    (kept : RestingUnless resting d past) (same : k.ledger.resting = d.ledger.resting) (more : List HaltEvent) :
    RestingUnless resting k (past ++ more) := by
  intro unclear
  rw [same]
  exact kept fun slot member => unclear slot (mem_append_left more member)

theorem tryCancelSlot_ledger (d : RoutedDispatcher) (slot : Nat) (arm : ArmAnswers) :
    .restingCleared slot ∈ (d.tryCancelSlot slot arm).2 ∨ (d.tryCancelSlot slot arm).1.ledger = d.ledger := by
  unfold tryCancelSlot cancelSlot confirmCancel
  dsimp only
  repeat' split
  all_goals first | exact .inr rfl | exact .inl (by simp)

theorem tryCancelSlot_resting (resting : Resting) (slot : Nat) (arm : ArmAnswers) :
    Keeps (RestingUnless resting) (tryCancelSlot · slot arm) := by
  intro d past kept
  rcases d.tryCancelSlot_ledger slot arm with cleared | same
  · exact fun unclear => absurd (mem_append_right past cleared) (unclear slot)
  · exact kept.grow (congrArg Ledger.resting same) _

theorem latchSlot_ledger (d : RoutedDispatcher) (slot : Nat) (why : HaltReason) :
    (d.latchSlot slot why).1.ledger = d.ledger := by
  unfold latchSlot
  split <;> rfl

theorem halts_resting (resting : Resting) (op : HaltOp) : Keeps (RestingUnless resting) (halts · op) := by
  refine halts_keeps (fun d slot past kept => ?_) (fun slot why d past kept => ?_) (fun slot sig lim d past kept => ?_)
    (fun slot d past kept => ?_) (tryCancelSlot_resting resting) op
  · have same : (d.ledger.step (.markSlotSeeded slot)).resting = d.ledger.resting := by
      unfold Ledger.step Ledger.markSlotSeeded
      dsimp only
      split <;> rfl
    exact fun unclear => same.trans (kept unclear)
  · exact kept.grow (congrArg Ledger.resting (d.latchSlot_ledger slot why)) _
  · exact kept.grow rfl _
  · exact kept.grow rfl _

theorem halts_reason {slot : Nat} {why : HaltReason} (halted : why.isHalted = true) (op : HaltOp) :
    Keeps (fun (d : RoutedDispatcher) _ => d.halt.reasons slot = why) (halts · op) := by
  refine halts_keeps (fun d slot past kept => kept) (fun s new d past kept => ?_) (fun s sig lim d past kept => ?_)
    (fun s d past kept => ?_) (fun s arm d past kept => ?_) op
  · change (d.latchSlot s new).1.halt.reasons slot = why
    unfold latchSlot latch
    split
    · exact kept
    dsimp only
    split
    · exact kept
    rename_i edge
    have other : slot ≠ s := by
      rintro rfl
      exact edge (.inr (.inr (by rw [kept]; exact halted)))
    exact (update_of_ne other _ _).trans kept
  · change (d.halt.hold s (holdFor sig lim)).1.reasons slot = why
    unfold hold
    dsimp only
    repeat' split
    all_goals exact kept
  · change (d.halt.release s).1.reasons slot = why
    unfold release
    split <;> exact kept
  · change (d.tryCancelSlot s arm).1.halt.reasons slot = why
    rw [(d.tryCancelSlot_stops s arm).1]
    exact kept

theorem isHeld_of_stops {h k : HaltState} (same : SameStops h k) (slot : Nat) : k.isHeld slot = h.isHeld slot := by
  simp only [isHeld, same.2.1, same.2.2]

theorem latchSlot_held (d : RoutedDispatcher) (slot : Nat) (why : HaltReason) (s : Nat) :
    (d.latchSlot slot why).1.halt.isHeld s = d.halt.isHeld s := by
  unfold latchSlot latch
  split
  · rfl
  · dsimp only
    split <;> rfl

theorem latchSlot_owes {s : Nat} {why : HaltReason} (free : (d.latchSlot slot why).1.halt.pendingCancel s = .none) :
    d.halt.pendingCancel s = .none := by
  unfold latchSlot latch at free
  split at free
  · exact free
  dsimp only at free
  split at free
  · exact free
  · rcases eq_or_ne s slot with rfl | other
    · simp [setPending] at free
    · simpa [setPending, other] using free

theorem hold_held {h : HaltState} {s : Nat} {bits : BitVec 8} (held : h.isHeld s = true) :
    (h.hold slot bits).1.isHeld s = true := by
  unfold hold
  split
  · exact held
  split
  · exact Cycle.isHeld_holdBits held
  · dsimp only
    split <;> exact Cycle.isHeld_holdBits held

theorem releaseSlot_owes {s : Nat} (held : d.halt.isHeld s = true)
    (lifted : (d.releaseSlot slot).1.halt.isHeld s = false) : d.halt.pendingCancel s = .none := by
  change (d.halt.release slot).1.isHeld s = false at lifted
  unfold release at lifted
  split at lifted
  · rw [held] at lifted
    exact absurd lifted (by decide)
  rename_i free
  push Not at free
  rcases eq_or_ne s slot with rfl | other
  · exact free.2
  · have kept : d.halt.isHeld s = false := by simpa [isHeld, other] using lifted
    rw [held] at kept
    exact absurd kept (by decide)

theorem pollHold_owes {s : Nat} {sig : HaltSignal} {lim : HaltLimits} (held : d.halt.isHeld s = true)
    (lifted : (d.pollHold slot sig lim).1.halt.isHeld s = false) : d.halt.pendingCancel s = .none := by
  unfold pollHold at lifted
  split at lifted
  · exact absurd ((hold_held held).symm.trans lifted) (by decide)
  · split at lifted
    · exact releaseSlot_owes held lifted
    · exact absurd (held.symm.trans lifted) (by decide)

theorem halts_lifted {s : Nat} {op : HaltOp} (held : d.halt.isHeld s = true)
    (lifted : (d.halts op).1.halt.isHeld s = false) : d.halt.pendingCancel s = .none := by
  have latch : ∀ slot why, Keeps (fun (d : RoutedDispatcher) _ => d.halt.isHeld s = true) (latchSlot · slot why) :=
    fun slot why d _ held => (d.latchSlot_held slot why s).trans held
  have cancel : ∀ slot arm, Keeps (fun (d : RoutedDispatcher) _ => d.halt.isHeld s = true) (tryCancelSlot · slot arm) :=
    fun slot arm d _ held => (isHeld_of_stops (d.tryCancelSlot_stops slot arm) s).trans held
  have never : ∀ {k : RoutedDispatcher}, k.halt.isHeld s = true → k.halt.isHeld s = false →
      d.halt.pendingCancel s = .none := fun yes no => absurd (yes.symm.trans no) (by decide)
  cases op with
  | haltSlot slot why arm => exact never (haltSlot_keeps latch cancel slot why arm d [] held) lifted
  | latchAll reasons => exact never (latchAll_keeps latch reasons d [] held) lifted
  | tryCancelSlot slot arm => exact never (cancel slot arm d [] held) lifted
  | releaseSlot slot => exact releaseSlot_owes held lifted
  | pollSlot slot sig =>
    change (d.pollSlot slot sig).1.halt.isHeld s = false at lifted
    unfold pollSlot at lifted
    split at lifted
    · exact never held lifted
    cases limits : d.route.haltsAt slot with
    | none =>
      rw [limits] at lifted
      exact never held lifted
    | some lim =>
      rw [limits] at lifted
      have through : ∀ k : RoutedDispatcher, k.halt = d.halt →
          ((k.latchSlot slot (triggerFor sig lim)).1.pollHold slot sig lim).1.halt.isHeld s = false →
          d.halt.pendingCancel s = .none := by
        intro k same gone
        rw [← same] at held ⊢
        exact latchSlot_owes (pollHold_owes ((k.latchSlot_held slot _ s).trans held) gone)
      refine through _ ?_ lifted
      split <;> rfl

/-! ### Over every run -/

theorem riskCheck_stopped (stopped : d.halt.isHalted slot = true ∨ d.halt.isHeld slot = true) {order : Order}
    (own : order.strategyId = slot) (venue : Nat) (verb : RiskVerb) :
    (d.riskCheck order venue verb).2 = .error .riskRefused := by
  have refused : ∃ why, (d.verdict order venue verb).2 = some why := by
    unfold verdict
    subst own
    dsimp only
    cases d.route.capsAt order.strategyId with
    | none => exact ⟨_, rfl⟩
    | some caps =>
      dsimp only
      split
      · exact ⟨_, rfl⟩
      · rename_i unhalted
        rw [if_pos (stopped.resolve_left unhalted)]
        exact ⟨_, rfl⟩
  obtain ⟨why, refused⟩ := refused
  unfold riskCheck
  split
  · rename_i verdict
    rw [verdict] at refused
    exact nomatch refused
  · rfl

theorem cancelSlot_asks (d : RoutedDispatcher) (slot : Nat) (arm : ArmAnswers) :
    .requested slot arm.takes ∈ (d.cancelSlot slot arm).2 := by
  unfold cancelSlot
  cases takes : arm.takes with
  | false => simp
  | true =>
    rw [if_neg (by decide)]
    split <;> exact mem_cons_self

theorem tryCancelSlot_asks {arm : ArmAnswers} (owes : d.halt.cancelPhase slot ≠ .none)
    (due : arm.before = .stranded ∨ d.halt.cancelPhase slot ≠ .asked ∧ arm.before ≠ .working) :
    .requested slot arm.takes ∈ (d.tryCancelSlot slot arm).2 := by
  unfold tryCancelSlot
  cases phase : d.halt.cancelPhase slot with
  | none => exact absurd phase owes
  | wanted => exact cancelSlot_asks _ slot arm
  | retry =>
    have idle : arm.before ≠ .working := by
      rcases due with stranded | ⟨_, idle⟩
      · rw [stranded]
        decide
      · exact idle
    dsimp only
    rw [if_neg idle]
    exact mem_cons_of_mem _ (cancelSlot_asks _ slot arm)
  | asked =>
    rcases due with stranded | ⟨unasked, _⟩
    · rw [stranded]
      exact mem_cons_of_mem _ (cancelSlot_asks _ slot arm)
    · exact absurd phase unasked

theorem cancelPhase_eq {h : HaltState} {past : List HaltEvent} (c : Cycle h past) (slot : Nat) :
    h.cancelPhase slot = owed slot past := by
  rw [← c.phase slot]
  unfold cancelPhase
  split
  · rename_i beyond
    by_contra owes
    rcases c.stopped slot (Ne.symm owes) with halted | held
    · have known := ((Cycle.isHalted_iff h slot).mp halted).1
      omega
    · simp only [isHeld, Bool.and_eq_true, decide_eq_true_eq] at held
      omega
  · rfl

theorem Cycle.remembers {h : HaltState} {before since : List HaltEvent} {taken : Bool}
    (c : Cycle h (before ++ .requested slot taken :: since))
    (latest : ∀ e ∈ since, ∀ again, e ≠ .requested slot again)
    (unclear : taken = true → .restingCleared slot ∉ since) :
    h.cancelPhase slot ≠ .none ∧ (taken = false → h.cancelPhase slot ≠ .asked) := by
  rw [cancelPhase_eq c]
  refine owed_since latest ?_
  cases taken with
  | true => exact unclear rfl
  | false =>
    -- clearing needs an accepted request, and the latest one was refused
    intro member
    obtain ⟨first, rest, rfl⟩ := append_of_mem member
    obtain ⟨past, mid, split, quiet⟩ := c.confirmed (before ++ .requested slot false :: first) _
      (prefix_iff_eq_append.mpr (by simp)) slot rfl
    rw [append_assoc, cons_append] at split
    have same := last_unique (fun e => ∃ again, e = .requested slot again) split ⟨_, rfl⟩ ⟨_, rfl⟩
      (fun x inside ⟨again, e⟩ => latest x (by simp [inside]) again e) (fun x inside ⟨again, e⟩ => by
        rcases mem_append.mp inside with earlier | last
        · exact quiet x earlier (.inr (.inr ⟨again, e⟩))
        · rw [mem_singleton.mp last] at e
          exact nomatch e)
    exact nomatch same

/-- Halts, holds and their cancels over every run, whatever the arm answers. -/
theorem halt_cycle (d : RoutedDispatcher) (fresh : d.halt = .new) (ops : List HaltOp) (slot : Nat) :
    let s := run (watch halts) (d, []) ops
    (s.1.halt.isHalted slot = true → ∀ more,
      (run (watch halts) s more).1.halt.isHalted slot = true ∧
      (run (watch halts) s more).1.halt.reason slot = s.1.halt.reason slot) ∧
    (s.1.halt.cancelPhase slot ≠ .none →
      (s.1.halt.isHalted slot = true ∨ s.1.halt.isHeld slot = true) ∧
      ∀ (order : Order) venue verb, order.strategyId = slot →
        (s.1.riskCheck order venue verb).2 = .error .riskRefused) ∧
    (∀ op, s.1.halt.isHeld slot = true → (s.1.halts op).1.halt.isHeld slot = false →
      s.1.halt.cancelPhase slot = .none) ∧
    (∀ before after, s.2 = before ++ .restingCleared slot :: after → Confirmed slot before) ∧
    (∀ op, (∀ other, .restingCleared other ∉ (s.1.halts op).2) →
      (s.1.halts op).1.ledger.resting = s.1.ledger.resting) ∧
    (.held slot true ∈ s.2 → s.1.halt.isHalted slot = true) ∧
    (∀ before taken since, s.2 = before ++ .requested slot taken :: since →
      (∀ e ∈ since, ∀ again, e ≠ .requested slot again) → (taken = true → .restingCleared slot ∉ since) →
      s.1.halt.cancelPhase slot ≠ .none ∧
      ∀ arm : ArmAnswers, arm.before = .stranded ∨ taken = false ∧ arm.before ≠ .working →
        .requested slot arm.takes ∈ (s.1.tryCancelSlot slot arm).2) := by
  intro s
  have c : Cycle s.1.halt s.2 := watch_invariant halts_cycles (s := (d, [])) (by
    change Cycle d.halt []
    rw [fresh]
    exact Cycle.start) ops
  have phase : ∀ slot, s.1.halt.cancelPhase slot = s.1.halt.pendingCancel slot := fun slot =>
    (cancelPhase_eq c slot).trans (c.phase slot).symm
  refine ⟨fun halted more => ?_, fun owes => ?_, fun op held lifted => ?_, fun before after split => ?_,
    fun op unclear => ?_, c.covered slot, fun before taken since split latest unclear => ?_⟩
  · obtain ⟨known, reason⟩ := (Cycle.isHalted_iff _ slot).mp halted
    have kept : (run (watch halts) s more).1.halt.reasons slot = s.1.halt.reasons slot :=
      watch_invariant (halts_reason reason) rfl more
    refine ⟨(Cycle.isHalted_iff _ slot).mpr ⟨known, by rw [kept]; exact reason⟩, ?_⟩
    simp only [HaltState.reason, kept]
  · rw [phase] at owes
    have stopped := c.stopped slot owes
    exact ⟨stopped, fun order venue verb own => riskCheck_stopped stopped own venue verb⟩
  · rw [phase]
    exact halts_lifted held lifted
  · exact c.confirmed before _ ⟨after, by rw [split, append_assoc]; rfl⟩ slot rfl
  · exact halts_resting s.1.ledger.resting op s.1 [] (fun _ => rfl) unclear
  · rw [split] at c
    obtain ⟨owes, unasked⟩ := Cycle.remembers c latest unclear
    exact ⟨owes, fun arm due => tryCancelSlot_asks owes
      (due.imp id fun ⟨refused, idle⟩ => ⟨unasked refused, idle⟩)⟩

/-- Every slot is live and held after a gap of one second. -/
def gapRouter : RoutedDispatcher where
  route :=
    { modes := fun _ => .live
      venueMask := fun _ _ => true
      caps := fun _ => ⟨10000000, 100000000, 1000000000, 2⟩
      halts := fun _ => { HaltLimits.none with wsGapMs := 1000 }
      perp := fun _ => ⟨0, 0⟩ }
  routeVenue := fun _ venue => venue
  ledger := Ledger.new ⟨0, 0⟩
  halt := .new
  counters := .new

def gapSignal : HaltSignal := ⟨2000000000, 0, 0, 0, false, true, false, false, false, false, 0, 0, 0, false⟩

/-- A refused request, asked again, then answered. -/
theorem refused_then_confirmed :
    let ops : List HaltOp := [.haltSlot 3 .operator fun _ => ⟨.clear, false, .clear⟩,
      .tryCancelSlot 3 ⟨.clear, true, .working⟩, .tryCancelSlot 3 ⟨.clear, true, .clear⟩]
    (run (watch halts) (gapRouter, []) ops).2 = [.halted 3, .requested 3 false, .answered 3 .clear, .requested 3 true,
      .answered 3 .working, .answered 3 .clear, .restingCleared 3] ∧
    Confirmed 3 [.halted 3, .requested 3 false, .answered 3 .clear, .requested 3 true, .answered 3 .working,
      .answered 3 .clear] := by
  intro ops
  have trace : (run (watch halts) (gapRouter, []) ops).2 = [.halted 3, .requested 3 false, .answered 3 .clear,
      .requested 3 true, .answered 3 .working, .answered 3 .clear, .restingCleared 3] := by decide +kernel
  exact ⟨trace, (halt_cycle gapRouter rfl ops 3).2.2.2.1 _ [] trace⟩

/-- The stream drops while a halted slot's sweep drains: the hold is an edge and asks for nothing,
and the answer to the halt's request clears the slot. -/
theorem hold_edge_makes_no_request :
    (run (watch halts) (gapRouter, []) [.haltSlot 3 .operator fun _ => ⟨.working, true, .working⟩,
      .pollSlot 3 gapSignal, .tryCancelSlot 3 ⟨.clear, true, .clear⟩]).2 =
    [.halted 3, .requested 3 true, .answered 3 .working, .held 3 true, .answered 3 .clear, .restingCleared 3] := by
  decide +kernel

theorem tryCancelSlots_run (d : RoutedDispatcher) (past : List HaltEvent) (arm : Nat → ArmAnswers) :
    ∃ ops, run (watch halts) (d, past) ops = ((d.tryCancelSlots arm).1, past ++ (d.tryCancelSlots arm).2) := by
  unfold tryCancelSlots
  split
  · exact ⟨[], by rw [append_nil]; rfl⟩
  · exact ⟨_, watch_sweep halts (fun slot => .tryCancelSlot slot (arm slot)) execSlots d past⟩

end RoutedDispatcher

end TradingEngine.Router
