import TradingEngine.Parse.ScanExact

/-!
# Numbers on the wire

A price or a size goes out as the shortest decimal of a value at eight places. The scanner of that scale reads it
back.
-/

namespace TradingEngine.Venue

open Base Parse List NumberToken

def wireScale : Nat := 100000000

def wireMax : Nat := 24

def digitByte (d : Nat) : UInt8 := UInt8.ofNat (48 + d)

/-- The digits of `q`, lowest first, into a buffer with that much room; `none` is a write past its end. -/
def lowDigits : Nat → Nat → Option (List UInt8)
  | 0, q => if q = 0 then some [] else none
  | room + 1, q => if q = 0 then some [] else (lowDigits room (q / 10)).map fun ds => digitByte (q % 10) :: ds

/-- The lowest `k` digits of `f`, highest first. -/
def fixedDigits : Nat → Nat → List UInt8
  | 0, _ => []
  | k + 1, f => fixedDigits k (f / 10) ++ [digitByte (f % 10)]

/-- The rendered bytes; `none` is a write past the end of a buffer. -/
def from1e8 (v : Int) : Option (List UInt8) :=
  if v = 0 then some [48]
  else
    let intPart := v.natAbs / wireScale
    let fracPart := v.natAbs % wireScale
    (if intPart = 0 then some [48] else (lowDigits 20 intPart).map reverse).bind fun whole =>
      let frac := if fracPart ≠ 0 then point :: (fixedDigits 8 fracPart).rdropWhile (· = 48) else []
      let text := (if v < 0 then [minus] else []) ++ (whole ++ frac)
      if text.length ≤ wireMax then some text else none

theorem digitByte_isDigit {d : Nat} (lt : d < 10) : isDigit (digitByte d) = true := by
  simp [isDigit, digitByte, UInt8.toNat_ofNat']
  omega

theorem digit_digitByte {d : Nat} (lt : d < 10) : digit (digitByte d) = d := by
  simp [digit, digitByte, UInt8.toNat_ofNat']
  omega

theorem decimal_concat (ds : List UInt8) {d : Nat} (lt : d < 10) : decimal (ds ++ [digitByte d]) = decimal ds * 10 + d := by
  rw [decimal_append, length_singleton, pow_one]
  simp [decimal, decimalFrom, digit_digitByte lt]

theorem lowDigits_zero (room : Nat) : lowDigits room 0 = some [] := by
  cases room <;> rfl

theorem lowDigits_spec (room : Nat) {q : Nat} (fits : q < 10 ^ room) :
    ∃ ds, lowDigits room q = some ds ∧ (∀ b ∈ ds, isDigit b = true) ∧ decimal ds.reverse = q ∧ ds.length ≤ room ∧
      (0 < q → 10 ^ ds.length ≤ q * 10) := by
  induction room generalizing q with
  | zero =>
    obtain rfl : q = 0 := by simpa using fits
    exact ⟨[], rfl, by simp, rfl, le_rfl, by simp⟩
  | succ room ih =>
    rcases Nat.eq_zero_or_pos q with rfl | pos
    · exact ⟨[], rfl, by simp, rfl, by simp, by simp⟩
    obtain ⟨ds, ran, all, value, short, large⟩ := ih (q := q / 10) (by rw [pow_succ] at fits; omega)
    have last : q % 10 < 10 := Nat.mod_lt _ (by decide)
    refine ⟨digitByte (q % 10) :: ds, ?_, ?_, ?_, by simpa using short, fun _ => ?_⟩
    · rw [lowDigits, if_neg (by omega), ran]
      rfl
    · intro b member
      rcases mem_cons.mp member with rfl | below
      · exact digitByte_isDigit last
      · exact all b below
    · rw [reverse_cons, decimal_concat _ last, value]
      omega
    · rw [length_cons, pow_succ]
      rcases Nat.eq_zero_or_pos (q / 10) with none | more
      · rw [none, lowDigits_zero] at ran
        cases ran
        simp
        omega
      · have := large more
        omega

theorem fixedDigits_spec (k f : Nat) :
    (fixedDigits k f).length = k ∧ (∀ b ∈ fixedDigits k f, isDigit b = true) ∧ decimal (fixedDigits k f) = f % 10 ^ k := by
  induction k generalizing f with
  | zero => exact ⟨rfl, by simp [fixedDigits], by simp [fixedDigits, decimal, decimalFrom, Nat.mod_one]⟩
  | succ k ih =>
    obtain ⟨length, all, value⟩ := ih (f / 10)
    have last : f % 10 < 10 := Nat.mod_lt _ (by decide)
    refine ⟨by simp [fixedDigits, length], ?_, ?_⟩
    · intro b member
      rcases mem_append.mp member with high | low
      · exact all b high
      · rw [mem_singleton.mp low]
        exact digitByte_isDigit last
    · rw [fixedDigits, decimal_concat _ last, value, pow_succ, Nat.mul_comm (10 ^ k), Nat.mod_mul, Nat.add_comm,
        Nat.mul_comm 10]

theorem decimal_strip (ds : List UInt8) :
    decimal ds = decimal (ds.rdropWhile (· = 48)) * 10 ^ (ds.length - (ds.rdropWhile (· = 48)).length) := by
  induction ds using reverseRecOn with
  | nil => simp [decimal, decimalFrom]
  | append_singleton ds b ih =>
    rw [rdropWhile_concat]
    split
    · rename_i zero
      obtain rfl : b = 48 := by simpa using zero
      have shorter := ( rdropWhile_prefix (· = 48) (l := ds)).length_le
      have more : (ds ++ [48]).length - (ds.rdropWhile (· = 48)).length =
          ds.length - (ds.rdropWhile (· = 48)).length + 1 := by
        rw [length_append, length_singleton]
        omega
      rw [more, pow_succ, ← Nat.mul_assoc, ← ih, decimal_append]
      simp [decimal, decimalFrom, digit]
    · rw [Nat.sub_self, pow_zero, Nat.mul_one]

/-- A plain numeral of `v` at eight places, with nothing in it that could be left out. -/
structure Numeral (v : Int) (t : NumberToken) : Prop where
  wf : t.WellFormed
  plain : t.exp = none
  negative : t.negative = decide (v < 0)
  whole : decimal t.whole = v.natAbs / wireScale
  lead : t.whole = [48] ∨ 10 ^ t.whole.length ≤ decimal t.whole * 10
  few : t.fracDigits.length ≤ 8
  frac : decimal t.fracDigits * 10 ^ (8 - t.fracDigits.length) = v.natAbs % wireScale
  last : ∀ fs ∈ t.frac, fs.getLast? ≠ some 48

theorem digits_fit {v : Int} (word : InI64 v) : v.natAbs / wireScale < 10 ^ 11 := by
  unfold InI64 i64Min i64Max at word
  unfold wireScale
  omega

theorem run_singleton_zero : IsRun [48] := ⟨by decide, by simp [isDigit]⟩

theorem whole_spec {v : Int} (word : InI64 v) :
    ∃ whole, (if v.natAbs / wireScale = 0 then some [48] else (lowDigits 20 (v.natAbs / wireScale)).map reverse) =
      some whole ∧ IsRun whole ∧ decimal whole = v.natAbs / wireScale ∧
      (whole = [48] ∨ 10 ^ whole.length ≤ decimal whole * 10) ∧ whole.length ≤ 12 := by
  have fits := digits_fit word
  by_cases zero : v.natAbs / wireScale = 0
  · exact ⟨[48], if_pos zero, run_singleton_zero, by rw [zero]; rfl, .inl rfl, by decide⟩
  obtain ⟨ds, ran, all, value, -, large⟩ := lowDigits_spec 20 (fits.trans (by decide : 10 ^ 11 < 10 ^ 20))
  have large := large (Nat.pos_of_ne_zero zero)
  refine ⟨ds.reverse, by rw [if_neg zero, ran]; rfl, ⟨?_, fun b member => all b (by simpa using member)⟩, value, .inr ?_, ?_⟩
  · rintro nil
    rw [nil] at value
    exact zero value.symm
  · rw [value, length_reverse]
    exact large
  · rw [length_reverse]
    by_contra long
    have : 10 ^ 13 ≤ 10 ^ ds.length := Nat.pow_le_pow_right (by decide) (by omega)
    omega

theorem frac_spec {f : Nat} (small : f < 10 ^ 8) :
    ∃ frac : Option (List UInt8),
      (if f ≠ 0 then point :: (fixedDigits 8 f).rdropWhile (· = 48) else []) = (frac.map fun fs => point :: fs).getD [] ∧
      (∀ fs ∈ frac, IsRun fs ∧ fs.getLast? ≠ some 48) ∧ (frac.getD []).length ≤ 8 ∧
      decimal (frac.getD []) * 10 ^ (8 - (frac.getD []).length) = f := by
  by_cases zero : f = 0
  · refine ⟨none, if_neg (by simpa using zero), by simp, by simp, ?_⟩
    simp [decimal, decimalFrom, zero]
  obtain ⟨length, all, fixed⟩ := fixedDigits_spec 8 f
  rw [Nat.mod_eq_of_lt small] at fixed
  have front := rdropWhile_prefix (· = 48) (fixedDigits 8 f)
  have strip := decimal_strip (fixedDigits 8 f)
  have stop := rdropWhile_last_not (· = 48) (fixedDigits 8 f)
  rw [fixed, length] at strip
  generalize (fixedDigits 8 f).rdropWhile (· = 48) = fs at *
  have nonempty : fs ≠ [] := by
    rintro rfl
    exact zero (by simpa [decimal, decimalFrom] using strip)
  refine ⟨some fs, if_pos zero, ?_, length ▸ front.length_le, strip.symm⟩
  rintro _ ⟨⟩
  refine ⟨⟨nonempty, fun b member => all b (front.subset member)⟩, fun ends => stop nonempty ?_⟩
  rw [getLast?_eq_getLast_of_ne_nil nonempty] at ends
  simpa using Option.some.inj ends

theorem from1e8_numeral {v : Int} (word : InI64 v) :
    ∃ t, from1e8 v = some t.text ∧ t.text.length ≤ wireMax ∧ Numeral v t := by
  by_cases zero : v = 0
  · subst zero
    exact ⟨⟨false, [48], none, none⟩, rfl, by decide, ⟨⟨run_singleton_zero, by simp, by simp⟩, rfl, rfl, rfl, .inl rfl,
      by decide, rfl, by simp⟩⟩
  obtain ⟨whole, ran, run, value, lead, short⟩ := whole_spec word
  obtain ⟨frac, written, fracRun, few, fracValue⟩ := frac_spec (f := v.natAbs % wireScale) (Nat.mod_lt _ (by decide))
  have text : (mk (decide (v < 0)) whole frac none).text =
      (if v < 0 then [minus] else []) ++ (whole ++ (frac.map fun fs => point :: fs).getD []) := by
    simp [text, signText, fracText, expText]
  have fits : (mk (decide (v < 0)) whole frac none).text.length ≤ wireMax := by
    have sign : (if v < 0 then [minus] else []).length ≤ 1 := by split <;> simp
    have tail : ((frac.map fun fs => point :: fs).getD []).length ≤ 9 := by
      cases frac with
      | none => simp
      | some fs => exact Nat.succ_le_succ few
    rw [text, length_append, length_append, wireMax]
    omega
  refine ⟨⟨decide (v < 0), whole, frac, none⟩, ?_, fits, ⟨⟨run, fun fs member => (fracRun fs member).1, by simp⟩, rfl, rfl,
    value, lead, few, fracValue, fun fs member => (fracRun fs member).2⟩⟩
  unfold from1e8
  rw [if_neg zero]
  dsimp only
  rw [ran, Option.bind_some, written, ← text, if_pos fits]

namespace Numeral

variable {v : Int} {t u : NumberToken}

theorem mantissa_eq (t : NumberToken) :
    t.mantissa = decimal t.whole * 10 ^ t.fracDigits.length + decimal t.fracDigits := decimal_append _ _

theorem scaled (n : Numeral v t) : t.mantissa * 10 ^ 8 = v.natAbs * 10 ^ t.fracDigits.length := by
  have parts := Nat.div_add_mod v.natAbs wireScale
  have scale : 10 ^ 8 = 10 ^ (8 - t.fracDigits.length) * 10 ^ t.fracDigits.length := by
    rw [← pow_add]
    congr 1
    have := n.few
    omega
  calc t.mantissa * 10 ^ 8
      = (decimal t.whole * 10 ^ 8 + decimal t.fracDigits * 10 ^ (8 - t.fracDigits.length)) * 10 ^ t.fracDigits.length := by
        rw [mantissa_eq, scale]
        ring
    _ = v.natAbs * 10 ^ t.fracDigits.length := by
        congr 1
        rw [n.whole, n.frac, Nat.mul_comm]
        exact parts

theorem abs_value (plain : u.exp = none) : |u.value| = u.mantissa / (10 : ℚ) ^ u.fracDigits.length := by
  have power : u.power = -(u.fracDigits.length : Int) := by simp [power, plain]
  have nonneg : (0 : ℚ) ≤ u.mantissa * (10 : ℚ) ^ u.power := by positivity
  rw [NumberToken.value, abs_mul, abs_of_nonneg nonneg, power, zpow_neg, zpow_natCast, ← div_eq_mul_inv]
  split <;> simp

theorem value_abs_iff (plain : u.exp = none) :
    |u.value| = |(v : ℚ) / 10 ^ 8| ↔ u.mantissa * 10 ^ 8 = v.natAbs * 10 ^ u.fracDigits.length := by
  have mag : |(v : ℚ) / 10 ^ 8| = (v.natAbs : ℚ) / 10 ^ 8 := by
    rw [abs_div, abs_of_pos (show (0 : ℚ) < 10 ^ 8 by positivity), Nat.cast_natAbs, Int.cast_abs]
  rw [abs_value plain, mag, div_eq_div_iff (by positivity) (by positivity)]
  exact_mod_cast Iff.rfl

theorem sign_value : u.value < 0 → u.negative = true := by
  intro below
  by_contra positive
  have : (0 : ℚ) ≤ u.mantissa * (10 : ℚ) ^ u.power := by positivity
  rw [NumberToken.value, if_neg positive, one_mul] at below
  exact absurd below (not_lt.mpr this)

theorem value (n : Numeral v t) : t.value = (v : ℚ) / 10 ^ 8 := by
  have same := (value_abs_iff n.plain).mpr n.scaled
  have nonneg : (0 : ℚ) ≤ t.mantissa * (10 : ℚ) ^ t.power := by positivity
  rw [NumberToken.value] at same ⊢
  rcases lt_or_ge v 0 with neg | pos
  · have below : (v : ℚ) / 10 ^ 8 < 0 := div_neg_of_neg_of_pos (by exact_mod_cast neg) (by positivity)
    rw [n.negative, decide_eq_true neg, if_pos rfl] at same ⊢
    rw [abs_of_neg below, neg_one_mul, abs_neg, abs_of_nonneg nonneg] at same
    rw [neg_one_mul, same, neg_neg]
  · have above : (0 : ℚ) ≤ (v : ℚ) / 10 ^ 8 := div_nonneg (by exact_mod_cast pos) (by positivity)
    rw [n.negative, decide_eq_false (not_lt.mpr pos), if_neg (by simp)] at same ⊢
    rwa [abs_of_nonneg above, one_mul, abs_of_nonneg nonneg, ← one_mul (_ * _)] at same

theorem parts (wf : u.WellFormed) (scaled : u.mantissa * 10 ^ 8 = v.natAbs * 10 ^ u.fracDigits.length) :
    decimal u.whole = v.natAbs / wireScale ∧
      decimal u.fracDigits * 10 ^ 8 = (v.natAbs % wireScale) * 10 ^ u.fracDigits.length := by
  have small : decimal u.fracDigits < 10 ^ u.fracDigits.length := by
    refine decimal_lt _ ?_
    unfold fracDigits
    cases frac : u.frac with
    | none => simp
    | some fs => exact (wf.frac fs frac).2
  have parts := Nat.div_add_mod v.natAbs wireScale
  have positive : 0 < 10 ^ u.fracDigits.length := Nat.pow_pos (by decide)
  rw [mantissa_eq] at scaled
  generalize 10 ^ u.fracDigits.length = p at *
  generalize decimal u.whole = w at *
  generalize decimal u.fracDigits = f at *
  have whole : w = v.natAbs / wireScale := by
    have low : w * wireScale ≤ v.natAbs := by
      by_contra less
      have : v.natAbs * p < w * wireScale * p := Nat.mul_lt_mul_of_pos_right (by omega) positive
      unfold wireScale at *
      nlinarith
    have high : v.natAbs < (w + 1) * wireScale := by
      by_contra more
      have : (w + 1) * wireScale * p ≤ v.natAbs * p := Nat.mul_le_mul_right p (by omega)
      unfold wireScale at *
      nlinarith
    exact (Nat.div_eq_of_lt_le low high).symm
  refine ⟨whole, ?_⟩
  rw [← whole] at parts
  unfold wireScale at *
  nlinarith

theorem text_length (plain : u.exp = none) :
    u.text.length = u.signText.length + u.whole.length + u.fracText.length := by
  simp [text, expText, plain]
  omega

theorem shortest (n : Numeral v t) (wf : u.WellFormed) (plain : u.exp = none) (same : u.value = (v : ℚ) / 10 ^ 8) :
    t.text.length ≤ u.text.length := by
  obtain ⟨whole, frac⟩ := parts wf ((value_abs_iff plain).mp (congrArg abs same))
  have signs : t.signText.length ≤ u.signText.length := by
    unfold signText
    rw [n.negative]
    by_cases neg : v < 0
    · have below : (v : ℚ) / 10 ^ 8 < 0 := div_neg_of_neg_of_pos (by exact_mod_cast neg) (by positivity)
      rw [sign_value (same ▸ below), decide_eq_true neg]
    · simp [neg]
  have wholes : t.whole.length ≤ u.whole.length := by
    rcases n.lead with one | large
    · rw [one]
      exact length_pos_of_ne_nil wf.whole.1
    have small := decimal_lt u.whole wf.whole.2
    rw [whole, ← n.whole] at small
    by_contra longer
    have : 10 ^ u.whole.length * 10 ≤ 10 ^ t.whole.length := by
      rw [← pow_succ]
      exact Nat.pow_le_pow_right (by decide) (by omega)
    omega
  have fracs : t.fracText.length ≤ u.fracText.length := by
    cases here : t.frac with
    | none => simp [fracText, here]
    | some fs =>
      have digits : t.fracDigits = fs := by simp [fracDigits, here]
      have own := n.frac
      have few := n.few
      rw [digits] at own few
      have run := n.wf.frac fs here
      -- the last digit is not zero, so no shorter fraction has this value
      obtain ⟨front, b, rfl⟩ : ∃ front b, fs = front ++ [b] := ⟨_, _, (dropLast_concat_getLast run.1).symm⟩
      have notZero : digit b ≠ 0 := by
        intro zero
        have isDigit := run.2 b (by simp)
        simp only [Base.isDigit, Bool.and_eq_true, decide_eq_true_eq] at isDigit
        have : b = 48 := UInt8.toNat_inj.mp (by unfold digit at zero; simp; omega)
        exact n.last _ here (by simp [this])
      have lastDigit : decimal (front ++ [b]) % 10 = digit b := by
        have small := digit_lt (run.2 b (by simp))
        rw [decimal_append]
        simp only [length_singleton, pow_one, decimal, decimalFrom, foldl_cons, foldl_nil]
        omega
      have long : (front ++ [b]).length ≤ u.fracDigits.length := by
        by_contra shorter
        rw [← own] at frac
        have scale : 10 ^ 8 = 10 ^ (8 - (front ++ [b]).length) * 10 ^ ((front ++ [b]).length - u.fracDigits.length - 1) * 10 *
            10 ^ u.fracDigits.length := by
          rw [← pow_add, ← pow_succ, ← pow_add]
          congr 1
          omega
        have positive : 0 < 10 ^ (8 - (front ++ [b]).length) * 10 ^ u.fracDigits.length := by positivity
        have cancel : decimal u.fracDigits * 10 ^ ((front ++ [b]).length - u.fracDigits.length - 1) * 10 =
            decimal (front ++ [b]) := by
          refine Nat.eq_of_mul_eq_mul_right positive ?_
          rw [scale] at frac
          linarith
        rw [← cancel, Nat.mul_mod_left] at lastDigit
        exact notZero lastDigit.symm
      unfold fracText fracDigits at *
      rw [here]
      cases other : u.frac with
      | none =>
        rw [other] at long
        simp at long
      | some gs =>
        rw [other] at long
        simpa using long
  rw [text_length n.plain, text_length plain]
  omega

theorem scanned (n : Numeral v t) (word : InI64 v) (above : i64Min < v) :
    scanPrice1e8 t.text 0 = some (v, t.text.length) := by
  have value : decimal t.whole * 10 ^ 8 + decimal t.fracDigits * 10 ^ 8 / 10 ^ t.fracDigits.length = v.natAbs := by
    have scale : 10 ^ 8 = 10 ^ (8 - t.fracDigits.length) * 10 ^ t.fracDigits.length := by
      rw [← pow_add]
      congr 1
      have := n.few
      omega
    rw [show decimal t.fracDigits * 10 ^ 8 / 10 ^ t.fracDigits.length =
        decimal t.fracDigits * 10 ^ (8 - t.fracDigits.length) by
      rw [scale, ← Nat.mul_assoc, Nat.mul_div_cancel _ (Nat.pow_pos (by decide))], n.frac, n.whole]
    unfold wireScale
    omega
  have fits : (v.natAbs : Int) ≤ i64Max := by
    unfold InI64 i64Min i64Max at *
    omega
  rw [scanPrice1e8, show (100000000 : Nat) = 10 ^ 8 from rfl, scanPriceN_text (by decide) n.wf n.plain value fits, n.negative]
  congr 2
  by_cases neg : v < 0
  · rw [decide_eq_true neg, if_pos rfl]
    omega
  · rw [decide_eq_false neg, if_neg (by simp)]
    omega

end Numeral

/-- The rendered bytes are a plain numeral of the value that fits its buffer, has no zero or sign it could do
without and no shorter numeral beside it, and the scanner reads the value back from the whole of it. -/
theorem wireNum_round_trip (v : Int) (word : InI64 v) (above : i64Min < v) :
    ∃ t : NumberToken, from1e8 v = some t.text ∧ t.text.length ≤ wireMax ∧ t.WellFormed ∧ t.exp = none ∧
      t.value = (v : ℚ) / 10 ^ 8 ∧ (t.whole.head? = some 48 → t.whole = [48]) ∧ (∀ fs ∈ t.frac, fs.getLast? ≠ some 48) ∧
      (t.negative = true → v ≠ 0) ∧
      (∀ u : NumberToken, u.WellFormed → u.exp = none → u.value = (v : ℚ) / 10 ^ 8 → t.text.length ≤ u.text.length) ∧
      scanPrice1e8 t.text 0 = some (v, t.text.length) := by
  obtain ⟨t, ran, fits, n⟩ := from1e8_numeral word
  refine ⟨t, ran, fits, n.wf, n.plain, n.value, ?_, n.last, ?_, fun u wf plain same => n.shortest wf plain same,
    n.scanned word above⟩
  · intro zero
    rcases n.lead with one | large
    · exact one
    exfalso
    obtain ⟨ds, eq⟩ := head?_eq_some_iff.mp zero
    have small := decimal_lt ds fun b member => n.wf.whole.2 b (by rw [eq]; simp [member])
    have same : decimal t.whole = decimal ds := by rw [eq]; rfl
    rw [same, eq, length_cons, pow_succ] at large
    omega
  · intro negative zero
    rw [n.negative, zero] at negative
    exact absurd negative (by decide)

theorem wireNum_round_trip_half : ∃ t : NumberToken, from1e8 (-50000000) = some t.text ∧ t.text = [45, 48, 46, 53] ∧
    scanPrice1e8 t.text 0 = some (-50000000, t.text.length) := by
  obtain ⟨t, ran, _, _, _, _, _, _, _, _, read⟩ := wireNum_round_trip (-50000000) (by decide) (by decide)
  refine ⟨t, ran, ?_, read⟩
  have bytes : from1e8 (-50000000) = some [45, 48, 46, 53] := by decide
  exact Option.some.inj (ran.symm.trans bytes)

end TradingEngine.Venue
