import TradingEngine.Router.Ledger

/-!
# Halts, holds and the cancel they owe

A halt is latched once and kept. A hold lifts by itself.
-/

namespace TradingEngine.Router

open Base Function

inductive HaltReason where
  | none
  | rejectStreak
  | budgetFloor
  | reconDrift
  | wsGap
  | assetRefusals
  | operator
  | reconStale
  | pnlGain
  | pnlLoss
  | venueLock
  | marginRisk
  | aloRejectRate
  | gatewayHalt
  deriving DecidableEq, Repr

def HaltReason.isHalted (why : HaltReason) : Bool := why ≠ .none

structure HaltSignal where
  wsGapNs : Nat
  reconDriftUsd1e6 : Int
  rejectStreak : Nat
  assetRefusalStreak : Nat
  budgetFloorBreached : Bool
  reconciled : Bool
  pnlJudged : Bool
  venueLock : Bool
  marginRisk : Bool
  gatewayHalted : Bool
  aloRejectPermille : Nat
  reconAgeNs : Nat
  pnlDeltaUsd1e6 : Int
  resyncPending : Bool
  deriving DecidableEq, Repr

structure HaltLimits where
  reconDriftUsd1e6 : Int
  wsGapMs : Int
  reconStaleMs : Int
  rejectStreak : Nat
  assetRefusalStreak : Nat
  pnlGainUsd1e6 : Int
  pnlLossUsd1e6 : Int
  aloRejectPermille : Nat
  deriving DecidableEq, Repr

def HaltLimits.none : HaltLimits := ⟨0, 0, 0, 0, 0, 0, 0, 0⟩

def triggerFor (sig : HaltSignal) (lim : HaltLimits) : HaltReason :=
  if sig.venueLock then .venueLock
  else if sig.marginRisk then .marginRisk
  else if lim.rejectStreak > 0 ∧ sig.rejectStreak ≥ lim.rejectStreak then .rejectStreak
  else if lim.assetRefusalStreak > 0 ∧ sig.assetRefusalStreak ≥ lim.assetRefusalStreak then .assetRefusals
  else if sig.budgetFloorBreached then .budgetFloor
  else if sig.gatewayHalted then .gatewayHalt
  else if lim.aloRejectPermille > 0 ∧ sig.aloRejectPermille ≥ lim.aloRejectPermille then .aloRejectRate
  else if lim.reconDriftUsd1e6 > 0 ∧ sig.reconDriftUsd1e6 ≥ lim.reconDriftUsd1e6 then .reconDrift
  else if sig.pnlJudged ∧ lim.pnlGainUsd1e6 > 0 ∧ sig.pnlDeltaUsd1e6 ≥ lim.pnlGainUsd1e6 then .pnlGain
  else if sig.pnlJudged ∧ lim.pnlLossUsd1e6 > 0 ∧ sig.pnlDeltaUsd1e6 ≤ -lim.pnlLossUsd1e6 then .pnlLoss
  else .none

def holdWsGap : BitVec 8 := 1

def holdReconStale : BitVec 8 := 2

/-- The holds a signal calls for. A zero observation or an unset threshold holds nothing. -/
def holdFor (sig : HaltSignal) (lim : HaltLimits) : BitVec 8 :=
  let gap := lim.wsGapMs > 0 ∧ sig.wsGapNs > 0 ∧ ((sig.wsGapNs / 1000000 : Nat) : Int) ≥ lim.wsGapMs
  let stale := lim.reconStaleMs > 0 ∧ sig.reconAgeNs > 0 ∧ ((sig.reconAgeNs / 1000000 : Nat) : Int) ≥ lim.reconStaleMs
  (if gap then holdWsGap else 0) ||| (if stale then holdReconStale else 0)

def holdClear (sig : HaltSignal) (lim : HaltLimits) : Bool := !sig.resyncPending && holdFor sig lim = 0

inductive CancelPhase where
  | none
  | wanted
  | asked
  | retry
  deriving DecidableEq, Repr

structure HaltState where
  reasons : Nat → HaltReason
  pendingCancel : Nat → CancelPhase
  halts : Nat
  cancelAllFailures : Nat
  cancelAllStranded : Nat
  heldGap : Nat → Bool
  heldStale : Nat → Bool
  holds : Nat

namespace HaltState

def new : HaltState where
  reasons := fun _ => .none
  pendingCancel := fun _ => .none
  halts := 0
  cancelAllFailures := 0
  cancelAllStranded := 0
  heldGap := fun _ => false
  heldStale := fun _ => false
  holds := 0

variable (h : HaltState)

def reason (slot : Nat) : HaltReason := if slot ≥ execSlots then .none else h.reasons slot

def isHalted (slot : Nat) : Bool := (h.reason slot).isHalted

def isHeld (slot : Nat) : Bool := slot < execSlots && (h.heldGap slot || h.heldStale slot)

def cancelPhase (slot : Nat) : CancelPhase :=
  if slot ≥ execSlots then .none else h.pendingCancel slot

def cancelOutstanding : Bool := (firstBelow (fun s => h.pendingCancel s ≠ .none) execSlots).isSome

def setPending (slot : Nat) (phase : CancelPhase) : HaltState :=
  { h with pendingCancel := update h.pendingCancel slot phase }

def latch (slot : Nat) (why : HaltReason) : HaltState × Bool :=
  if slot ≥ execSlots ∨ why.isHalted = false ∨ (h.reasons slot).isHalted = true then (h, false)
  else
    ({ h.setPending slot .wanted with
        reasons := update h.reasons slot why
        halts := bump u64Max h.halts }, true)

def cancelCleared (slot : Nat) : HaltState :=
  if slot < execSlots then h.setPending slot .none else h

def cancelRequested (slot : Nat) : HaltState :=
  if slot < execSlots ∧ (h.pendingCancel slot = .wanted ∨ h.pendingCancel slot = .retry) then h.setPending slot .asked
  else h

def cancelFailed (slot : Nat) : HaltState :=
  let h := { h with cancelAllFailures := bump u64Max h.cancelAllFailures }
  if slot < execSlots ∧ h.pendingCancel slot = .asked then h.setPending slot .retry else h

def cancelStranded : HaltState := { h with cancelAllStranded := bump u64Max h.cancelAllStranded }

def holdBits (slot : Nat) (bits : BitVec 8) : HaltState :=
  { h with
    heldGap := update h.heldGap slot (h.heldGap slot || bits &&& holdWsGap ≠ 0)
    heldStale := update h.heldStale slot (h.heldStale slot || bits &&& holdReconStale ≠ 0) }

def hold (slot : Nat) (bits : BitVec 8) : HaltState × Bool :=
  if slot ≥ execSlots ∨ bits = 0 then (h, false)
  else if h.heldGap slot || h.heldStale slot then (h.holdBits slot bits, false)
  else
    let h := h.holdBits slot bits
    let h := if h.pendingCancel slot = .none then h.setPending slot .wanted else h
    ({ h with holds := bump u32Max h.holds }, true)

def release (slot : Nat) : HaltState × Bool :=
  if h.isHeld slot = false ∨ h.pendingCancel slot ≠ .none then (h, false)
  else
    ({ h with
        heldGap := update h.heldGap slot false
        heldStale := update h.heldStale slot false }, true)

end HaltState

end TradingEngine.Router
