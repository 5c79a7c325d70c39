import TradingEngine.Queue.Book

/-!
# The strict-cross law

How one tick judges a maker and an IoC, over the size that the tick displays. The budgets are shared by the orders of
one pass.
-/

namespace TradingEngine.Paper
open Base CoreTypes Queue

structure Tick where
  tsNs : Nat
  sym : SymbolId
  stale : Bool
  quote : Queue.Tick
  deriving DecidableEq, Repr

def Tick.touch (t : Tick) : Touch := Touch.of t.quote

def isFillEvidence (t : Tick) : Bool := !t.stale ∧ t.quote.bidPx > 0 ∧ t.quote.askPx > 0

/-- Zero is never. -/
def expiryAt (emitNs ttlNs : Nat) : Nat := if ttlNs = 0 then 0 else min (emitNs + ttlNs) u64Max

def expiredAt (nowNs expiryNs : Nat) : Bool := expiryNs ≠ 0 ∧ expiryNs ≤ nowNs

inductive Verdict where
  | wait
  | fill (px1e6 qty1e6 : Int)
  | cancel
  deriving DecidableEq, Repr

structure Budget where
  ask : Int
  bid : Int
  deriving DecidableEq, Repr

namespace Budget

def of (t : Touch) : Budget := ⟨t.askQty1e6, t.bidQty1e6⟩

def against (b : Budget) : Side → Int
  | .bid => b.ask
  | .ask => b.bid

def take (b : Budget) (side : Side) (q : Int) : Budget :=
  match side with
  | .bid => { b with ask := b.ask - q }
  | .ask => { b with bid := b.bid - q }

end Budget

def opposite (t : Touch) : Side → Int
  | .bid => t.ask1e6
  | .ask => t.bid1e6

def noWorse (side : Side) (px limit : Int) : Bool :=
  match side with
  | .bid => px ≤ limit
  | .ask => limit ≤ px

def crossed (side : Side) (px limit : Int) : Bool :=
  match side with
  | .bid => px < limit
  | .ask => limit < px

def judge (passes : Bool) (px : Int) (other : Verdict) (side : Side) (remaining : Int) (b : Budget) : Verdict × Budget :=
  if passes ∧ 0 < b.against side then
    let q := if remaining < b.against side then remaining else b.against side
    if q ≤ 0 then (other, b) else (.fill px q, b.take side q)
  else (other, b)

def judgeIoc (side : Side) (px1e6 remaining1e6 : Int) (t : Touch) (b : Budget) : Verdict × Budget :=
  judge (noWorse side (opposite t side) px1e6) (opposite t side) .cancel side remaining1e6 b

def judgeMaker (side : Side) (px1e6 remaining1e6 : Int) (t : Touch) (b : Budget) : Verdict × Budget :=
  judge (crossed side (opposite t side) px1e6) px1e6 .wait side remaining1e6 b

theorem judge_cases (passes : Bool) (px : Int) (other : Verdict) (side : Side) (remaining : Int) (b : Budget) :
    judge passes px other side remaining b = (other, b) ∨
      ∃ q, judge passes px other side remaining b = (.fill px q, b.take side q) ∧ passes = true ∧ 0 < q ∧
        q ≤ remaining ∧ q ≤ b.against side := by
  by_cases go : passes = true ∧ 0 < b.against side
  · rw [judge, if_pos go]
    generalize size : (if remaining < b.against side then remaining else b.against side) = q
    have fits : q ≤ remaining ∧ q ≤ b.against side := by
      rw [← size]
      split <;> omega
    by_cases none_left : q ≤ 0
    · exact .inl (if_pos none_left)
    · exact .inr ⟨q, if_neg none_left, go.1, by omega, fits.1, fits.2⟩
  · exact .inl (if_neg go)

end TradingEngine.Paper
