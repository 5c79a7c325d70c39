import Mathlib.Data.List.Basic

/-!
# Computations that may be refused

A value that has to be there and a condition that must not hold, with what follows from a computation that passed.
-/

namespace TradingEngine.Base

section Refusals

variable {ε α β : Type}

def need (x : Option α) (why : ε) : Except ε α := x.elim (.error why) .ok

def refuse (c : Prop) [Decidable c] (why : ε) : Except ε Unit := if c then .error why else .ok ()

theorem bind_ok {x : Except ε α} {f : α → Except ε β} {b : β} (run : (x >>= f) = .ok b) :
    ∃ a, x = .ok a ∧ f a = .ok b := match x, run with
  | .ok a, run => ⟨a, rfl, run⟩

theorem need_ok {x : Option α} {why : ε} {a : α} (found : need x why = .ok a) : x = some a := by
  cases x with
  | none => cases found
  | some b =>
    cases found
    rfl

theorem refuse_ok {c : Prop} [Decidable c] {why : ε} {u : Unit} (passed : refuse c why = .ok u) : ¬ c := by
  intro holds
  rw [refuse, if_pos holds] at passed
  cases passed

end Refusals

end TradingEngine.Base
