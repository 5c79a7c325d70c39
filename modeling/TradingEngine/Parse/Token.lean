import TradingEngine.Parse.Scan

/-!
# Number tokens

What the scanners read: a sign, whole digits, a fraction and an exponent, as bytes and as a rational number.
-/

namespace TradingEngine.Parse

open Base

structure ExponentPart where
  letter : UInt8
  sign : Option UInt8
  digits : List UInt8
  deriving DecidableEq, Repr

structure NumberToken where
  negative : Bool
  whole : List UInt8
  frac : Option (List UInt8)
  exp : Option ExponentPart
  deriving DecidableEq, Repr

def IsRun (ds : List UInt8) : Prop := ds ≠ [] ∧ ∀ b ∈ ds, isDigit b = true

namespace ExponentPart

def text (e : ExponentPart) : List UInt8 := e.letter :: (e.sign.toList ++ e.digits)

structure WellFormed (e : ExponentPart) : Prop where
  letter : e.letter = lowerE ∨ e.letter = upperE
  sign : ∀ s ∈ e.sign, s = plus ∨ s = minus
  digits : IsRun e.digits

def value (e : ExponentPart) : Int := if e.sign = some minus then -(decimal e.digits : Int) else decimal e.digits

end ExponentPart

namespace NumberToken

def fracDigits (t : NumberToken) : List UInt8 := t.frac.getD []

def fracText (t : NumberToken) : List UInt8 := (t.frac.map fun ds => point :: ds).getD []

def expText (t : NumberToken) : List UInt8 := (t.exp.map ExponentPart.text).getD []

def signText (t : NumberToken) : List UInt8 := if t.negative then [minus] else []

def text (t : NumberToken) : List UInt8 := t.signText ++ (t.whole ++ (t.fracText ++ t.expText))

structure WellFormed (t : NumberToken) : Prop where
  whole : IsRun t.whole
  frac : ∀ ds ∈ t.frac, IsRun ds
  exp : ∀ e ∈ t.exp, e.WellFormed

def mantissa (t : NumberToken) : Nat := decimal (t.whole ++ t.fracDigits)

def power (t : NumberToken) : Int := (t.exp.map ExponentPart.value).getD 0 - t.fracDigits.length

def value (t : NumberToken) : ℚ := (if t.negative then -1 else 1) * (t.mantissa * (10 : ℚ) ^ t.power)

/-- What comes after the token does not go on with it. -/
structure EndsBefore (t : NumberToken) (exponents : Bool) (rest : List UInt8) : Prop where
  digit : ∀ b, rest.head? = some b → isDigit b = false
  point : t.exp = none → t.frac = none → rest.head? ≠ some point
  letter : t.exp = none → exponents = true → rest.head? ≠ some lowerE ∧ rest.head? ≠ some upperE

end NumberToken

def truncate (q : ℚ) : Int := if 0 ≤ q then ⌊q⌋ else ⌈q⌉

def Reads (exponents : Bool) (scale : Nat) (buf : List UInt8) (pos : Nat) (v : Int) (stop : Nat) : Prop :=
  ∃ (t : NumberToken) (rest : List UInt8), t.WellFormed ∧ (exponents = false → t.exp = none) ∧
    buf.drop pos = t.text ++ rest ∧ stop = pos + t.text.length ∧ t.EndsBefore exponents rest ∧
    v = truncate (t.value * 10 ^ scale)

theorem not_digit_of_mark {b : UInt8} (mark : b = minus ∨ b = plus ∨ b = point ∨ b = lowerE ∨ b = upperE) :
    isDigit b = false := by
  rcases mark with rfl | rfl | rfl | rfl | rfl <;> decide

theorem IsRun.head_digit {ds rest : List UInt8} (run : IsRun ds) {b : UInt8} (first : (ds ++ rest).head? = some b) :
    isDigit b = true := by
  obtain ⟨some, all⟩ := run
  cases ds with
  | nil => exact absurd rfl some
  | cons d ds =>
    obtain rfl : d = b := by simpa using first
    exact all d (by simp)

theorem run_unique {ds es rest rest' : List UInt8} (run : IsRun ds) (run' : IsRun es)
    (stop : Stops rest) (stop' : Stops rest') (same : ds ++ rest = es ++ rest') : ds = es ∧ rest = rest' := by
  have eq : ds = es := by rw [← digits_append run.2 stop, same, digits_append run'.2 stop']
  subst eq
  exact ⟨rfl, List.append_cancel_left same⟩

namespace ExponentPart

theorem text_inj {e f : ExponentPart} (wf : e.WellFormed) (wf' : f.WellFormed) (same : e.text = f.text) : e = f := by
  obtain ⟨letter, sign, ds⟩ := e
  obtain ⟨letter', sign', ds'⟩ := f
  obtain ⟨rfl, tail⟩ := List.cons.inj same
  -- a sign is no digit, so the signs are there together
  have apart : ∀ {s : UInt8} {xs ys : List UInt8}, (s = plus ∨ s = minus) → IsRun ys → s :: xs ≠ ys := by
    rintro s xs ys mark run rfl
    have := run.2 s (by simp)
    rw [not_digit_of_mark (by tauto)] at this
    cases this
  cases sign with
  | none =>
    cases sign' with
    | none => simpa using tail
    | some s => exact absurd tail.symm (apart (wf'.sign s rfl) wf.digits)
  | some s =>
    cases sign' with
    | none => exact absurd tail (apart (wf.sign s rfl) wf'.digits)
    | some s' =>
      obtain ⟨rfl, rest⟩ := List.cons.inj tail
      simpa using rest

theorem text_head {e : ExponentPart} (wf : e.WellFormed) {b : UInt8} (first : e.text.head? = some b) :
    b = lowerE ∨ b = upperE := by
  obtain rfl : e.letter = b := by simpa [text] using first
  exact wf.letter

end ExponentPart

namespace NumberToken

variable {t u : NumberToken}

section

variable (wf : t.WellFormed)

include wf

theorem WellFormed.expText_head {b : UInt8} (first : t.expText.head? = some b) : b = lowerE ∨ b = upperE := by
  unfold expText at first
  cases exp : t.exp with
  | none => simp [exp] at first
  | some e =>
    rw [exp] at first
    exact ExponentPart.text_head (wf.exp e exp) first

theorem WellFormed.tail_head {b : UInt8} (first : (t.fracText ++ t.expText).head? = some b) :
    b = point ∨ b = lowerE ∨ b = upperE := by
  unfold fracText at first
  cases frac : t.frac with
  | none =>
    rw [frac] at first
    exact .inr (wf.expText_head first)
  | some ds =>
    rw [frac] at first
    exact .inl (by simpa using first.symm)

theorem expText_inj (wf' : u.WellFormed) (same : t.expText = u.expText) : t.exp = u.exp := by
  unfold expText at same
  cases exp : t.exp with
  | none =>
    cases exp' : u.exp with
    | none => rfl
    | some f => simp [exp, exp', ExponentPart.text] at same
  | some e =>
    cases exp' : u.exp with
    | none => simp [exp, exp', ExponentPart.text] at same
    | some f =>
      rw [exp, exp'] at same
      exact congrArg some (ExponentPart.text_inj (wf.exp e exp) (wf'.exp f exp') same)

theorem tail_inj (wf' : u.WellFormed) (same : t.fracText ++ t.expText = u.fracText ++ u.expText) :
    t.frac = u.frac ∧ t.exp = u.exp := by
  have stop : ∀ {w : NumberToken}, w.WellFormed → Stops w.expText :=
    fun wf b first => not_digit_of_mark (by have := wf.expText_head first; tauto)
  -- a point is no exponent's letter, so the fractions are there together
  have apart : ∀ {w : NumberToken}, w.WellFormed → ∀ xs : List UInt8, point :: xs ≠ w.expText := by
    intro w wf xs eq
    have := wf.expText_head (b := point) (by rw [← eq]; rfl)
    revert this
    decide
  unfold fracText at same
  cases frac : t.frac with
  | none =>
    cases frac' : u.frac with
    | none =>
      rw [frac, frac'] at same
      exact ⟨rfl, expText_inj wf wf' same⟩
    | some es =>
      rw [frac, frac'] at same
      exact absurd same.symm (apart wf _)
  | some ds =>
    cases frac' : u.frac with
    | none =>
      rw [frac, frac'] at same
      exact absurd same (apart wf' _)
    | some es =>
      rw [frac, frac'] at same
      obtain ⟨-, tail⟩ := List.cons.inj same
      obtain ⟨rfl, rest⟩ := run_unique (wf.frac ds frac) (wf'.frac es frac') (stop wf) (stop wf') tail
      exact ⟨rfl, expText_inj wf wf' rest⟩

theorem text_inj (wf' : u.WellFormed) (same : t.text = u.text) : t = u := by
  have stop : ∀ {w : NumberToken}, w.WellFormed → Stops (w.fracText ++ w.expText) :=
    fun wf b first => not_digit_of_mark (by have := wf.tail_head first; tauto)
  have apart : ∀ {w : NumberToken}, w.WellFormed → ∀ xs : List UInt8,
      minus :: xs ≠ w.whole ++ (w.fracText ++ w.expText) := by
    intro w wf xs eq
    have := wf.whole.head_digit (b := minus) (by rw [← eq]; rfl)
    revert this
    decide
  have body : t.negative = u.negative ∧ t.whole ++ (t.fracText ++ t.expText) = u.whole ++ (u.fracText ++ u.expText) := by
    unfold text signText at same
    cases neg : t.negative with
    | false =>
      cases neg' : u.negative with
      | false => rw [neg, neg'] at same; exact ⟨rfl, same⟩
      | true => rw [neg, neg'] at same; exact absurd same.symm (apart wf _)
    | true =>
      cases neg' : u.negative with
      | false => rw [neg, neg'] at same; exact absurd same (apart wf' _)
      | true => rw [neg, neg'] at same; exact ⟨rfl, (List.cons.inj same).2⟩
  obtain ⟨whole, tail⟩ := run_unique wf.whole wf'.whole (stop wf) (stop wf') body.2
  obtain ⟨frac, exp⟩ := tail_inj wf wf' tail
  cases t
  cases u
  simp_all

end

end NumberToken

end TradingEngine.Parse
