import TradingEngine.Base.Run

/-!
# 256-bit words

A word is a natural number; each operation reports what does not fit into 256 bits.
-/

namespace TradingEngine.Amm

def u128Size : Nat := 2 ^ 128

def u160Size : Nat := 2 ^ 160

def u256Size : Nat := 2 ^ 256

namespace U256

def checkedAdd (a b : Nat) : Option Nat := if a + b < u256Size then some (a + b) else none

def checkedSub (a b : Nat) : Option Nat := if b ≤ a then some (a - b) else none

def checkedMul (a b : Nat) : Option Nat := if a * b < u256Size then some (a * b) else none

def wrappingAdd (a b : Nat) : Nat := (a + b) % u256Size

def shl (a n : Nat) : Nat := a * 2 ^ n % u256Size

def saturatingU128 (a : Nat) : Nat := if a < u128Size then a else u128Size - 1

def mulDiv (a b d : Nat) : Option Nat :=
  if d = 0 then none else if a * b / d < u256Size then some (a * b / d) else none

/-- `ceil (a * b / d)`. -/
def mulDivRoundingUp (a b d : Nat) : Option Nat :=
  (mulDiv a b d).bind fun q => if a * b % d = 0 then some q else checkedAdd q 1

/-- `floor (a / b)`. -/
def checkedDiv (a b : Nat) : Option Nat := if b = 0 then none else some (a / b)

/-- `ceil (a / b)`. -/
def divRoundingUp (a b : Nat) : Option Nat :=
  (checkedDiv a b).bind fun q => if a % b = 0 then some q else checkedAdd q 1

end U256

end TradingEngine.Amm
