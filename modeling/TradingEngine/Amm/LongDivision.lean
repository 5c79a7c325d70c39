import TradingEngine.Base.Positional
import TradingEngine.Amm.Price
import TradingEngine.Amm.Types

/-!
# Division of 512 bits by 256

Words of 64 bits, least first.
-/

namespace TradingEngine.Amm

open Base Function

def radix : Nat := 2 ^ 64

abbrev Limbs := Nat → Nat

def Limbs.zero : Limbs := fun _ => 0

namespace U128

def add (a b : Nat) : Option Nat := if a + b < u128Size then some (a + b) else none

def sub (a b : Nat) : Option Nat := if b ≤ a then some (a - b) else none

def mul (a b : Nat) : Option Nat := if a * b < u128Size then some (a * b) else none

/-- A word and a limb below it; nothing when the word's high limb would be lost. -/
def join (hi lo : Nat) : Option Nat := if hi < radix then some (hi <<< 64 ||| lo) else none

end U128

def I128.sub (a b : Int) : Option Int := if -i128Size ≤ a - b ∧ a - b < i128Size then some (a - b) else none

/-- One limb of a row: the limb it leaves and the carry. -/
def rowStep (ai : Nat) (b : Limbs) (i j : Nat) (st : Limbs × Nat) : Option (Limbs × Nat) := do
  let (r, carry) := st
  let t ← U128.add (← U128.add (← U128.mul ai (b j)) (r (i + j))) carry
  some (update r (i + j) (t % radix), t / radix)

def row (ai : Nat) (b : Limbs) (i : Nat) (r : Limbs) : Nat → Option (Limbs × Nat)
  | 0 => some (r, 0)
  | j + 1 => (row ai b i r j).bind (rowStep ai b i j)

def fullMulRows (a b : Limbs) : Nat → Option Limbs
  | 0 => some Limbs.zero
  | i + 1 => do
    let (r, carry) ← row (a i) b i (← fullMulRows a b i) 4
    some (update r (i + 4) (carry % radix))

def fullMul (a b : Limbs) : Option Limbs := fullMulRows a b 4

def used (v : Limbs) : Nat → Nat
  | 0 => 0
  | n + 1 => if v n = 0 then used v n else n + 1

def shortDivide (u : Limbs) (d : Nat) : Nat → Limbs → Nat → Option (Limbs × Nat)
  | 0, q, rem => some (q, rem)
  | i + 1, q, rem => do
    let cur ← U128.join rem (u i)
    shortDivide u d i (update q i (cur / d % radix)) (cur % d)

def leadingZeros (x : Nat) : Nat := if x = 0 then 64 else 63 - x.log2

/-- A limb of the number shifted up by less than a limb. -/
def shiftUp (a : Limbs) (s i : Nat) : Nat :=
  if i = 0 then a 0 <<< s % radix
  else if s = 0 then a i
  else a i <<< s % radix ||| a (i - 1) >>> (64 - s)

def normalDivisor (v : Limbs) (n s : Nat) : Limbs := fun i => if i < n then shiftUp v s i else 0

/-- The dividend has one limb more, for what is shifted out. -/
def normalDividend (u : Limbs) (m s : Nat) : Limbs := fun i =>
  if i < m then shiftUp u s i else if i = m then (if s = 0 then 0 else u (m - 1) >>> (64 - s)) else 0

/-- Whether the estimate is refuted; its product is formed only below the radix. -/
def refuted (next low qhat rhat : Nat) : Option Bool :=
  if qhat ≥ radix then some true
  else do
    let product ← U128.mul qhat next
    let right ← U128.join rhat low
    some (decide (product > right))

/-- The corrections of an estimate, with their number. Each lowers it, so the estimate itself is fuel enough. -/
def correct (top next low : Nat) : Nat → Nat → Nat → Option (Nat × Nat)
  | 0, _, _ => none
  | fuel + 1, qhat, rhat => do
    if ← refuted next low qhat rhat then
      let qhat ← U128.sub qhat 1
      let rhat ← U128.add rhat top
      if rhat ≥ radix then some (qhat, 1)
      else
        let (qhat, more) ← correct top next low fuel qhat rhat
        some (qhat, more + 1)
    else some (qhat, 0)

/-- What multiplying and subtracting leaves: the limbs, the borrow and the carry. -/
structure Difference where
  un : Limbs
  borrow : Nat
  carry : Nat

def subStep (qhat : Nat) (vn : Limbs) (j k : Nat) (st : Difference) : Option Difference := do
  let p ← U128.add (← U128.mul qhat (vn k)) st.carry
  let t ← I128.sub (← I128.sub (st.un (k + j)) st.borrow) (p % radix : Nat)
  some ⟨update st.un (k + j) (t % radix).toNat, if t < 0 then 1 else 0, p / radix⟩

def mulSub (qhat : Nat) (vn : Limbs) (j : Nat) (un : Limbs) : Nat → Option Difference
  | 0 => some ⟨un, 0, 0⟩
  | k + 1 => (mulSub qhat vn j un k).bind (subStep qhat vn j k)

def addStep (vn : Limbs) (j k : Nat) (st : Limbs × Nat) : Option (Limbs × Nat) := do
  let s ← U128.add (← U128.add (st.1 (k + j)) (vn k)) st.2
  some (update st.1 (k + j) (s % radix), s / radix)

def addBack (vn : Limbs) (j : Nat) (un : Limbs) : Nat → Option (Limbs × Nat)
  | 0 => some (un, 0)
  | k + 1 => (addBack vn j un k).bind (addStep vn j k)

/-- A digit with the limbs it leaves and the corrections it took. -/
structure Digit where
  un : Limbs
  digit : Nat
  corrections : Nat

def digitAt (vn : Limbs) (n j : Nat) (un : Limbs) : Option Digit := do
  let num ← U128.join (un (j + n)) (un (j + n - 1))
  let top := vn (n - 1)
  let qhat := num / top
  let (qhat, corrections) ← correct top (vn (n - 2)) (un (j + n - 2)) (qhat + 1) qhat (num % top)
  let d ← mulSub qhat vn j un n
  let t ← I128.sub (← I128.sub (d.un (j + n)) d.borrow) d.carry
  let un := update d.un (j + n) (t % radix).toNat
  if t < 0 then
    let qhat ← U128.sub qhat 1
    let (un, c) ← addBack vn j un n
    some ⟨update un (j + n) ((un (j + n) + c % radix) % radix), qhat, corrections + 1⟩
  else some ⟨un, qhat, corrections⟩

def digits (vn : Limbs) (n : Nat) : Nat → Limbs → Limbs → Nat → Option (Limbs × Limbs × Nat)
  | 0, un, q, most => some (un, q, most)
  | j + 1, un, q, most => do
    let d ← digitAt vn n j un
    digits vn n j d.un (update q j (d.digit % radix)) (max most d.corrections)

def shiftDown (un : Limbs) (n s : Nat) : Limbs := fun k =>
  if k < n then (if s = 0 then un k else un k >>> s ||| un (k + 1) <<< (64 - s) % radix) else 0

/-- A quotient of eight limbs and a remainder of four, with the most corrections of a digit. -/
structure Quotient where
  q : Limbs
  r : Limbs
  corrections : Nat

def divmod512By256 (u v : Limbs) : Option Quotient :=
  let n := used v 4
  let m := used u 8
  if n = 0 then some ⟨Limbs.zero, Limbs.zero, 0⟩
  else if m < n then some ⟨Limbs.zero, fun i => if i < 4 then u i else 0, 0⟩
  else if n = 1 then do
    let (q, rem) ← shortDivide u (v 0) m Limbs.zero 0
    some ⟨q, fun i => if i = 0 then rem % radix else 0, 0⟩
  else do
    let s := leadingZeros (v (n - 1))
    let vn := normalDivisor v n s
    let (un, q, most) ← digits vn n (m - n + 1) (normalDividend u m s) Limbs.zero 0
    some ⟨q, shiftDown un n s, most⟩

def U256.limbs (a : Nat) : Limbs := fun i => a / radix ^ i % radix

/-- The quotient and the remainder when the quotient fits; the outer option is an overflow on the way. -/
def mulDivRem (a b d : Nat) : Option (Option (Nat × Nat)) :=
  if d = 0 then some none
  else do
    let p ← fullMul (U256.limbs a) (U256.limbs b)
    let out ← divmod512By256 p (U256.limbs d)
    if out.q 4 ||| out.q 5 ||| out.q 6 ||| out.q 7 ≠ 0 then some none
    else some (some (value radix out.q 4, value radix out.r 4))

def mulDivWords (a b d : Nat) : Option (Option Nat) := (mulDivRem a b d).map fun found => found.map Prod.fst

def mulDivRoundingUpWords (a b d : Nat) : Option (Option Nat) :=
  (mulDivRem a b d).map fun found => found.bind fun (q, r) => if r = 0 then some q else U256.checkedAdd q 1

end TradingEngine.Amm
