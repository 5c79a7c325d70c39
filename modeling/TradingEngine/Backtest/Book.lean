import TradingEngine.Core.Types

/-!
# The position books of a backtest

Positions at average cost, with running totals of what was realized and of what the open positions are worth at their
marks.
-/

namespace TradingEngine.Backtest

open CoreTypes

structure PosEntry where
  qty1e6 : Int
  cost1e12 : Int
  deriving DecidableEq, Repr

/-- What moves cash: a fill, or a position that becomes cash at a value. -/
inductive Move where
  | fill (side : Side) (px1e6 qty1e6 : Int)
  | settled (value1e6 qty1e6 : Int)
  deriving DecidableEq, Repr

/-- A symbol never held is the entry of zeros. `moves` is the history; no branch reads it. -/
structure Book where
  entries : SymbolId → PosEntry
  realizedSum1e12 : Int
  unrealSum1e12 : Int
  moves : List Move

def signed (side : Side) (qty1e6 : Int) : Int :=
  match side with
  | .bid => qty1e6
  | .ask => -qty1e6

/-- A fill under way: the position, what was realized, and what is still to be applied. -/
structure Filling where
  qty : Int
  cost : Int
  realized : Int
  left : Int
  deriving DecidableEq, Repr

def Filling.turn (px : Int) (f : Filling) : Filling :=
  if f.qty = 0 ∨ (decide (f.qty > 0) = decide (f.left > 0)) then
    { f with qty := f.qty + f.left, cost := f.cost + px * f.left, left := 0 }
  else
    let c := min |f.left| |f.qty|
    let qc := if f.left > 0 then c else -c
    let removed := (f.cost * c).tdiv |f.qty|
    ⟨f.qty + qc, f.cost - removed, f.realized + (-(px * qc) - removed), f.left - qc⟩

def Filling.loop (px : Int) : Nat → Filling → Filling
  | 0, f => f
  | n + 1, f => if f.left ≠ 0 then Filling.loop px n (f.turn px) else f

def Filling.run (px : Int) (f : Filling) : Filling := Filling.loop px 2 f

namespace Book

def new : Book := ⟨fun _ => ⟨0, 0⟩, 0, 0, []⟩

def posQty1e6 (b : Book) (sym : SymbolId) : Int := (b.entries sym).qty1e6

def onMark (b : Book) (sym : SymbolId) (oldMark1e6 newMark1e6 : Int) : Book :=
  let e := b.entries sym
  if e.qty1e6 ≠ 0 then { b with unrealSum1e12 := b.unrealSum1e12 + e.qty1e6 * (newMark1e6 - oldMark1e6) } else b

def applyFill (b : Book) (sym : SymbolId) (side : Side) (px1e6 qty1e6 mark1e6 : Int) : Book :=
  let e := b.entries sym
  let pre := e.qty1e6 * mark1e6 - e.cost1e12
  let f := Filling.run px1e6 ⟨e.qty1e6, e.cost1e12, 0, signed side qty1e6⟩
  let post := f.qty * mark1e6 - f.cost
  { entries := Function.update b.entries sym ⟨f.qty, f.cost⟩
    realizedSum1e12 := b.realizedSum1e12 + f.realized
    unrealSum1e12 := b.unrealSum1e12 + (post - pre)
    moves := b.moves ++ [.fill side px1e6 qty1e6] }

def settle (b : Book) (sym : SymbolId) (value1e6 mark1e6 : Int) : Book :=
  let e := b.entries sym
  if e.qty1e6 = 0 then b
  else
    { entries := Function.update b.entries sym ⟨0, 0⟩
      realizedSum1e12 := b.realizedSum1e12 + (value1e6 * e.qty1e6 - e.cost1e12)
      unrealSum1e12 := b.unrealSum1e12 - (e.qty1e6 * mark1e6 - e.cost1e12)
      moves := b.moves ++ [.settled value1e6 e.qty1e6] }

end Book

/-- The last mark of each symbol and the two books over the same fills. `blind` tells that a fill was booked on a
symbol without a mark; no branch reads it. -/
structure Accounts where
  marks1e6 : SymbolId → Option Int
  full : Book
  oos : Book
  blind : Bool

namespace Accounts

def new : Accounts := ⟨fun _ => none, .new, .new, false⟩

def mark (a : Accounts) (sym : SymbolId) (new1e6 : Int) : Accounts :=
  let old := (a.marks1e6 sym).getD new1e6
  { a with
    marks1e6 := Function.update a.marks1e6 sym (some new1e6)
    full := a.full.onMark sym old new1e6
    oos := a.oos.onMark sym old new1e6 }

def fill (a : Accounts) (sym : SymbolId) (side : Side) (px1e6 qty1e6 mark1e6 : Int) (oos : Bool) : Accounts :=
  { a with
    full := a.full.applyFill sym side px1e6 qty1e6 mark1e6
    oos := if oos then a.oos.applyFill sym side px1e6 qty1e6 mark1e6 else a.oos
    blind := a.blind || (a.marks1e6 sym).isNone }

def settle (a : Accounts) (sym : SymbolId) (value1e6 mark1e6 : Int) : Accounts :=
  { a with full := a.full.settle sym value1e6 mark1e6, oos := a.oos.settle sym value1e6 mark1e6 }

end Accounts

theorem Filling.turn_opens {px : Int} {f : Filling} (opens : f.qty = 0 ∨ decide (f.qty > 0) = decide (f.left > 0)) :
    f.turn px = ⟨f.qty + f.left, f.cost + px * f.left, f.realized, 0⟩ := by
  rw [Filling.turn, if_pos opens]

variable (px : Int) (f : Filling)

theorem Filling.turn_reduces (reduces : ¬(f.qty = 0 ∨ decide (f.qty > 0) = decide (f.left > 0))) :
    ∃ part removed, (part = f.left ∨ part = -f.qty) ∧
      f.turn px = ⟨f.qty + part, f.cost - removed, f.realized + (-(px * part) - removed), f.left - part⟩ := by
  refine ⟨if f.left > 0 then min |f.left| |f.qty| else -min |f.left| |f.qty|,
    (f.cost * min |f.left| |f.qty|).tdiv |f.qty|, ?_, by rw [Filling.turn, if_neg reduces]⟩
  simp only [not_or, decide_eq_decide] at reduces
  split_ifs with buys
  · rw [abs_of_pos buys, abs_of_neg (by omega)]
    omega
  · rw [abs_of_nonpos (by omega), abs_of_pos (by omega)]
    omega

theorem Filling.turn_keeps : (f.turn px).qty + (f.turn px).left = f.qty + f.left ∧
    (f.turn px).realized - (f.turn px).cost - px * (f.turn px).left = f.realized - f.cost - px * f.left := by
  by_cases opens : f.qty = 0 ∨ decide (f.qty > 0) = decide (f.left > 0)
  · rw [Filling.turn_opens opens]
    constructor <;> ring
  · obtain ⟨part, removed, -, after⟩ := f.turn_reduces px opens
    rw [after]
    constructor <;> ring

theorem Filling.loop_keeps (n : Nat) (f : Filling) :
    (Filling.loop px n f).qty + (Filling.loop px n f).left = f.qty + f.left ∧
    (Filling.loop px n f).realized - (Filling.loop px n f).cost - px * (Filling.loop px n f).left =
      f.realized - f.cost - px * f.left := by
  induction n generalizing f with
  | zero => exact ⟨rfl, rfl⟩
  | succ n ih =>
    rw [Filling.loop]
    split_ifs
    · obtain ⟨quantity, money⟩ := ih (f.turn px)
      obtain ⟨quantity', money'⟩ := f.turn_keeps px
      exact ⟨quantity.trans quantity', money.trans money'⟩
    · exact ⟨rfl, rfl⟩

theorem Filling.turn_ends : (f.turn px).left = 0 ∨ (f.turn px).qty = 0 := by
  by_cases opens : f.qty = 0 ∨ decide (f.qty > 0) = decide (f.left > 0)
  · rw [Filling.turn_opens opens]
    exact .inl rfl
  · obtain ⟨part, removed, all | flat, after⟩ := f.turn_reduces px opens
    · exact .inl (by rw [after, all, sub_self])
    · exact .inr (by rw [after, flat, add_neg_cancel])

theorem Filling.run_done : (f.run px).left = 0 := by
  have flat : ∀ g : Filling, g.left = 0 ∨ g.qty = 0 → (Filling.loop px 1 g).left = 0 := by
    intro g either
    rw [Filling.loop]
    split_ifs with open_
    · rw [Filling.loop, Filling.turn, if_pos (.inl (either.resolve_left open_))]
    · exact not_not.mp open_
  rw [Filling.run, Filling.loop]
  split_ifs with open_
  · exact flat _ (f.turn_ends px)
  · exact not_not.mp open_

theorem Filling.run_eq (px qty cost left : Int) :
    (Filling.run px ⟨qty, cost, 0, left⟩).qty = qty + left ∧
    (Filling.run px ⟨qty, cost, 0, left⟩).realized = (Filling.run px ⟨qty, cost, 0, left⟩).cost - cost - px * left := by
  obtain ⟨quantity, money⟩ := Filling.loop_keeps px 2 ⟨qty, cost, 0, left⟩
  have done := Filling.run_done px ⟨qty, cost, 0, left⟩
  rw [← Filling.run, done] at quantity money
  simp only [add_zero, mul_zero, sub_zero] at quantity money
  exact ⟨quantity, by linarith⟩

end TradingEngine.Backtest
