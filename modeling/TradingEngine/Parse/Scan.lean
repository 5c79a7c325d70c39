import TradingEngine.Base.Decimal
import TradingEngine.Base.Saturating

/-!
# Number scanners

Numbers read in place from a byte buffer: whole numbers, decimals at a fixed scale, and decimals with an exponent.
-/

namespace TradingEngine.Parse

open Base

def minus : UInt8 := 45

def plus : UInt8 := 43

def point : UInt8 := 46

def lowerE : UInt8 := 101

def upperE : UInt8 := 69

def u64SafeDigits : Nat := 19

def wrappingStep (v : Nat) (b : UInt8) : Option Nat := some ((v * 10 % u64Size + digit b) % u64Size)

def digitsU64Checked (ds : List UInt8) : Option Nat := ds.foldlM (checkedStep u64Max) 0

def scanU64 (buf : List UInt8) (pos : Nat) : Option (Nat × Nat) :=
  (runDigits wrappingStep (buf.drop pos) 0 0).bind fun run =>
    if run.2 = 0 then none
    else if run.2 > u64SafeDigits then (digitsU64Checked ((buf.drop pos).take run.2)).map fun v => (v, pos + run.2)
    else some (run.1, pos + run.2)

def scanI64 (buf : List UInt8) (pos : Nat) : Option (Int × Nat) :=
  buf[pos]?.bind fun first =>
    (scanU64 buf (if first = minus then pos + 1 else pos)).bind fun mag =>
      let signed : Int := if first = minus then -mag.1 else mag.1
      if InI64 signed then some (signed, mag.2) else none

def fractionStep (maxDigits : Nat) (s : Nat × Nat) (b : UInt8) : Option (Nat × Nat) :=
  some (if s.2 < maxDigits then (s.1 * 10 % u64Size + digit b) % u64Size else s.1, s.2 + 1)

def padded : Nat → Nat → Nat
  | 0, v => v
  | zeros + 1, v => padded zeros (v * 10 % u64Size)

def scanFractionalN (buf : List UInt8) (pos maxDigits : Nat) : Option (Nat × Nat) :=
  (runDigits (fractionStep maxDigits) (buf.drop pos) (0, 0) 0).bind fun run =>
    if run.1.2 = 0 then none else some (padded (maxDigits - run.1.2) run.1.1, pos + run.2)

/-- Whole part and fraction at a scale of ten to the `maxDigits`. -/
def scanPriceN (scale maxDigits : Nat) (buf : List UInt8) (pos : Nat) : Option (Int × Nat) :=
  buf[pos]?.bind fun first =>
    (scanU64 buf (if first = minus then pos + 1 else pos)).bind fun whole =>
      (if buf[whole.2]? = some point then scanFractionalN buf (whole.2 + 1) maxDigits
        else some (0, whole.2)).bind fun frac =>
        if whole.1 * scale ≤ u64Max ∧ whole.1 * scale + frac.1 ≤ u64Max ∧
            ((whole.1 * scale + frac.1 : Nat) : Int) ≤ i64Max then
          let mag : Int := (whole.1 * scale + frac.1 : Nat)
          some (if first = minus then -mag else mag, frac.2)
        else none

def scanPrice1e6 : List UInt8 → Nat → Option (Int × Nat) := scanPriceN 1000000 6

def scanPrice1e8 : List UInt8 → Nat → Option (Int × Nat) := scanPriceN 100000000 8

def scanPrice1e9 : List UInt8 → Nat → Option (Int × Nat) := scanPriceN 1000000000 9

def i32Max : Int := 2147483647

def i32Min : Int := -2147483648

def i32Clamp (x : Int) : Int := max i32Min (min x i32Max)

def i32Wrap (x : Int) : Int := (x - i32Min) % 4294967296 + i32Min

def u128Max : Nat := 340282366920938463463374607431768211455

/-- One more digit of the mantissa, one place further behind the point. -/
def mantissaStep (s : Nat × Int) (b : UInt8) : Option (Nat × Int) :=
  (checkedStep u128Max s.1 b).map fun m => (m, i32Wrap (s.2 - 1))

def exponentStep (e : Int) (b : UInt8) : Option Int := some (i32Clamp (i32Clamp (e * 10) + digit b))

/-- What follows the whole digits: the mantissa, the places behind the point, and the position after them. -/
def scanMantissa (buf : List UInt8) (pos whole : Nat) : Option (Nat × Int × Nat) :=
  if buf[pos]? = some point then
    (runDigits mantissaStep (buf.drop (pos + 1)) (whole, 0) 0).bind fun run =>
      if run.2 = 0 then none else some (run.1.1, run.1.2, pos + 1 + run.2)
  else some (whole, 0, pos)

def scanExponent (buf : List UInt8) (pos : Nat) : Option (Int × Nat) :=
  if buf[pos]? = some lowerE ∨ buf[pos]? = some upperE then
    let signed := buf[pos + 1]? = some plus ∨ buf[pos + 1]? = some minus
    let start := if signed then pos + 2 else pos + 1
    (runDigits exponentStep (buf.drop start) 0 0).bind fun run =>
      if run.2 = 0 then none
      else some (if buf[pos + 1]? = some minus then -run.1 else run.1, start + run.2)
  else some (0, pos)

/-- Shift the mantissa by the places asked for; past thirty-eight it cannot fit, or nothing is left of it. -/
def shifted (mantissa : Nat) (totalExp : Int) : Option Nat :=
  if 0 ≤ totalExp then
    if totalExp > 38 then none
    else if mantissa * 10 ^ totalExp.toNat ≤ u128Max then some (mantissa * 10 ^ totalExp.toNat) else none
  else if -totalExp > 38 then some 0
  else some (mantissa / 10 ^ (-totalExp).toNat)

def scanNumberSciScaled (outScale : Int) (buf : List UInt8) (pos : Nat) : Option (Int × Nat) :=
  buf[pos]?.bind fun first =>
    let start := if first = minus then pos + 1 else pos
    (runDigits (checkedStep u128Max) (buf.drop start) 0 0).bind fun whole =>
      if whole.2 = 0 then none
      else
        (scanMantissa buf (start + whole.2) whole.1).bind fun mantissa =>
          (scanExponent buf mantissa.2.2).bind fun exponent =>
            (shifted mantissa.1 (i32Clamp (i32Clamp (mantissa.2.1 + exponent.1) + outScale))).bind fun scaled =>
              if (scaled : Int) ≤ i64Max then
                some (if first = minus then -(scaled : Int) else scaled, exponent.2)
              else none

def scanNumberSci1e6 : List UInt8 → Nat → Option (Int × Nat) := scanNumberSciScaled 6

def scanNumberSci1e9 : List UInt8 → Nat → Option (Int × Nat) := scanNumberSciScaled 9

end TradingEngine.Parse
