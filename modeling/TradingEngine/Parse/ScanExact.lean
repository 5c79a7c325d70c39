import TradingEngine.Parse.Token

/-!
# The scanners are exact

What a scanner answers is the value of the token that stands at the position. For whole numbers and plain decimals
this holds in every buffer.
-/

namespace TradingEngine.Parse

open Base List Option NumberToken

variable {v maxDigits m : Nat}

/-- The mantissa moved by a power of ten, the places past the point dropped. -/
def scaledNat (m : Nat) (power : Int) : Nat :=
  if 0 ≤ power then m * 10 ^ power.toNat else m / 10 ^ (-power).toNat

theorem floor_scaled (m : Nat) (power : Int) : ⌊(m : ℚ) * (10 : ℚ) ^ power⌋ = scaledNat m power := by
  unfold scaledNat
  split
  · rename_i up
    obtain ⟨k, rfl⟩ := Int.eq_ofNat_of_zero_le up
    rw [zpow_natCast, Int.toNat_natCast]
    exact_mod_cast Int.floor_natCast (R := ℚ) (m * 10 ^ k)
  · rename_i down
    obtain ⟨k, rfl⟩ : ∃ k : Nat, power = -(k : Int) := ⟨(-power).toNat, by omega⟩
    rw [zpow_neg, zpow_natCast, neg_neg, Int.toNat_natCast, ← div_eq_mul_inv]
    have := Rat.floor_natCast_div_natCast m (10 ^ k)
    push_cast at this
    simpa using this

theorem truncate_value (t : NumberToken) (scale : Nat) :
    truncate (t.value * 10 ^ scale) =
      if t.negative then -(scaledNat t.mantissa (t.power + scale) : Int) else scaledNat t.mantissa (t.power + scale) := by
  have whole : (t.mantissa : ℚ) * (10 : ℚ) ^ t.power * 10 ^ scale = t.mantissa * (10 : ℚ) ^ (t.power + scale) := by
    rw [zpow_add₀ (by norm_num), zpow_natCast, mul_assoc]
  have nonneg : (0 : ℚ) ≤ t.mantissa * (10 : ℚ) ^ (t.power + scale) := by positivity
  rw [NumberToken.value, mul_assoc, whole, ← floor_scaled]
  unfold truncate
  cases t.negative with
  | false => simp [nonneg]
  | true =>
    simp only [if_true, neg_one_mul]
    split
    · rename_i both
      have zero : (t.mantissa : ℚ) * (10 : ℚ) ^ (t.power + scale) = 0 := by linarith
      rw [zero]
      simp
    · exact Int.ceil_neg

section Positions

variable {buf front rest : List UInt8} {pos : Nat}

theorem drop_past (here : buf.drop pos = front ++ rest) : buf.drop (pos + front.length) = rest := by
  rw [← drop_drop, here, drop_left]

theorem byte_past (here : buf.drop pos = front ++ rest) : buf[pos + front.length]? = rest.head? := by
  rw [← drop_past here, head?_drop]

theorem byte_at (pos : Nat) : buf[pos]? = (buf.drop pos).head? := head?_drop.symm

theorem sign_split {first : UInt8} (here : buf[pos]? = some first) :
    buf.drop pos = (if first = minus then [minus] else []) ++ buf.drop (if first = minus then pos + 1 else pos) := by
  split
  · rename_i neg
    rw [byte_at] at here
    obtain ⟨tail, eq⟩ := head?_eq_some_iff.mp here
    rw [← drop_drop, eq, neg]
    rfl
  · rfl

end Positions

theorem token_stands {buf : List UInt8} {pos : Nat} {first : UInt8} (here : buf[pos]? = some first) (t : NumberToken)
    (rest : List UInt8) (negative : t.negative = decide (first = minus))
    (body : buf.drop (if first = minus then pos + 1 else pos) = t.whole ++ (t.fracText ++ t.expText) ++ rest) :
    buf.drop pos = t.text ++ rest ∧ (if first = minus then pos + 1 else pos) + t.whole.length + t.fracText.length +
      t.expText.length = pos + t.text.length := by
  have sign : t.signText = if first = minus then [minus] else [] := by
    rw [signText, negative]
    by_cases neg : first = minus <;> simp [neg]
  rw [sign_split here, body, text, sign]
  refine ⟨by simp only [append_assoc], ?_⟩
  split <;> simp <;> omega

theorem foldlM_wrapping (ds : List UInt8) (v : Nat) :
    ds.foldlM wrappingStep (v % u64Size) = some (decimalFrom v ds % u64Size) := by
  induction ds generalizing v with
  | nil => rfl
  | cons b ds ih =>
    have next : decimalFrom v (b :: ds) = decimalFrom (v * 10 + digit b) ds := rfl
    have step : (v % u64Size * 10 % u64Size + digit b) % u64Size = (v * 10 + digit b) % u64Size := by
      rw [Nat.mod_mul_mod, Nat.mod_add_mod]
    rw [foldlM_cons, wrappingStep, next, ← ih]
    exact congrArg (fun w => ds.foldlM wrappingStep w) step

theorem scanU64_eq (buf : List UInt8) (pos : Nat) :
    scanU64 buf pos = if digits (buf.drop pos) = [] ∨ u64Max < decimal (digits (buf.drop pos)) then none
      else some (decimal (digits (buf.drop pos)), pos + (digits (buf.drop pos)).length) := by
  have run : runDigits wrappingStep (buf.drop pos) 0 0 =
      some (decimal (digits (buf.drop pos)) % u64Size, (digits (buf.drop pos)).length) := by
    rw [runDigits_eq, show (0 : Nat) = 0 % u64Size from rfl, foldlM_wrapping]
    simp [decimal]
  have front : (buf.drop pos).take (digits (buf.drop pos)).length = digits (buf.drop pos) := by
    obtain ⟨rest, eq, -⟩ := digits_rest (buf.drop pos)
    generalize digits (buf.drop pos) = ds at eq
    rw [eq, take_left]
  have all : ∀ b ∈ digits (buf.drop pos), isDigit b = true := fun b => digits_all
  unfold scanU64
  rw [run, bind_some]
  dsimp only
  rw [front]
  generalize digits (buf.drop pos) = ds at all ⊢
  by_cases none : ds = []
  · simp [none]
  have some : ds.length ≠ 0 := fun zero => none (eq_nil_of_length_eq_zero zero)
  rw [if_neg some]
  by_cases long : ds.length > u64SafeDigits
  · rw [if_pos long, digitsU64Checked, foldlM_checked (Nat.zero_le _)]
    change Option.map _ (if decimal ds ≤ u64Max then _ else _) = _
    by_cases fits : decimal ds ≤ u64Max
    · rw [if_pos fits, if_neg (not_or.mpr ⟨none, by omega⟩)]
      rfl
    · rw [if_neg fits, if_pos (.inr (by omega))]
      rfl
  · have bound : decimal ds < u64Size :=
      (decimal_lt_pow all (by simpa [u64SafeDigits] using long : ds.length ≤ 19)).trans (by decide)
    rw [if_neg long, if_neg (not_or.mpr ⟨none, by simp only [u64Max, u64Size] at bound ⊢; omega⟩), Nat.mod_eq_of_lt bound]

theorem scanU64_some {buf : List UInt8} {pos stop : Nat} (read : scanU64 buf pos = some (v, stop)) :
    ∃ ds rest, IsRun ds ∧ buf.drop pos = ds ++ rest ∧ Stops rest ∧ v = decimal ds ∧ stop = pos + ds.length := by
  rw [scanU64_eq] at read
  split at read
  · cases read
  rename_i good
  obtain ⟨rest, eq, stops⟩ := digits_rest (buf.drop pos)
  cases read
  exact ⟨_, rest, ⟨fun nil => good (.inl nil), fun b => digits_all⟩, eq, stops, rfl, rfl⟩

theorem scanI64_eq (buf : List UInt8) (pos : Nat) :
    scanI64 buf pos = let start := if buf[pos]? = some minus then pos + 1 else pos
      let ds := digits (buf.drop start)
      let v : Int := if buf[pos]? = some minus then -(decimal ds : Int) else decimal ds
      if ds = [] ∨ ¬ InI64 v then none else some (v, start + ds.length) := by
  unfold scanI64
  cases here : buf[pos]? with
  | none =>
    have past : buf.drop pos = [] := by
      rw [byte_at] at here
      exact head?_eq_none_iff.mp here
    simp [past, digits]
  | some first =>
    rw [bind_some, scanU64_eq]
    simp only [Option.some.injEq]
    generalize (if first = minus then pos + 1 else pos) = start
    generalize digits (buf.drop start) = ds
    by_cases none : ds = []
    · simp [none]
    by_cases large : u64Max < decimal ds
    · -- past 64 bits there is no signed value either
      have outside : ¬ InI64 (if first = minus then -(decimal ds : Int) else decimal ds) := by
        simp only [InI64, i64Min, i64Max, u64Max] at *
        split <;> omega
      rw [if_pos (.inr large), if_pos (.inr outside)]
      rfl
    · rw [if_neg (not_or.mpr ⟨none, large⟩), bind_some]
      dsimp only
      by_cases word : InI64 (if first = minus then -(decimal ds : Int) else decimal ds)
      · rw [if_pos word]
        exact (if_neg (not_or.mpr ⟨none, not_not.mpr word⟩)).symm
      · rw [if_neg word, if_pos (.inr word)]

/-! ### Decimals -/

theorem foldlM_fraction (short : maxDigits ≤ 18) {ds : List UInt8} (all : ∀ b ∈ ds, isDigit b = true) :
    ds.foldlM (fractionStep maxDigits) (0, 0) = some (decimal (ds.take maxDigits), ds.length) := by
  induction ds using reverseRecOn with
  | nil => simp [decimal, decimalFrom]
  | append_singleton ds b ih =>
    have prior := ih fun c member => all c (by simp [member])
    rw [foldlM_append, prior, bind_eq_bind, bind_some, foldlM_cons, fractionStep]
    dsimp only
    by_cases room : ds.length < maxDigits
    · have small : decimal (ds ++ [b]) < u64Size := (decimal_lt_pow all (by simp; omega : _ ≤ 18)).trans (by decide)
      have last : decimal (ds ++ [b]) = decimal ds * 10 + digit b := by
        rw [decimal_append]
        simp [decimal, decimalFrom]
      rw [if_pos room, take_of_length_le (by omega), take_of_length_le (by simp; omega), last,
        Nat.mod_eq_of_lt (a := decimal ds * 10) (by omega), Nat.mod_eq_of_lt (by omega)]
      simp
    · rw [if_neg room, take_append_of_le_length (by omega)]
      simp

theorem padded_eq {zeros : Nat} (small : v * 10 ^ zeros < u64Size) : padded zeros v = v * 10 ^ zeros := by
  induction zeros generalizing v with
  | zero => simp [padded]
  | succ zeros ih =>
    have next : v * 10 * 10 ^ zeros < u64Size := by rwa [Nat.mul_assoc, ← pow_succ']
    have first : v * 10 < u64Size := by
      have := Nat.le_mul_of_pos_right (v * 10) (show 0 < 10 ^ zeros from Nat.pow_pos (by omega))
      omega
    rw [padded, Nat.mod_eq_of_lt first, ih next, Nat.mul_assoc, ← pow_succ']

theorem scanFractionalN_eq (short : maxDigits ≤ 18) (buf : List UInt8) (pos : Nat) :
    scanFractionalN buf pos maxDigits = let ds := digits (buf.drop pos)
      if ds = [] then none else some (decimal ds * 10 ^ maxDigits / 10 ^ ds.length, pos + ds.length) := by
  have all : ∀ b ∈ digits (buf.drop pos), isDigit b = true := fun b => digits_all
  unfold scanFractionalN
  rw [runDigits_eq, foldlM_fraction short all, map_some, bind_some]
  dsimp only
  generalize digits (buf.drop pos) = ds at *
  by_cases nil : ds = []
  · rw [if_pos (by rw [nil]; rfl), if_pos nil]
  rw [if_neg (by simpa using nil), if_neg nil, Nat.zero_add]
  have small := decimal_lt (ds.take maxDigits) fun b member => all b (mem_of_mem_take member)
  rw [length_take] at small
  have bound : decimal (ds.take maxDigits) * 10 ^ (maxDigits - ds.length) < u64Size := by
    calc decimal (ds.take maxDigits) * 10 ^ (maxDigits - ds.length)
        < 10 ^ min maxDigits ds.length * 10 ^ (maxDigits - ds.length) :=
          Nat.mul_lt_mul_of_pos_right small (Nat.pow_pos (by omega))
      _ = 10 ^ maxDigits := by rw [← pow_add]; congr 1; omega
      _ ≤ 10 ^ 18 := Nat.pow_le_pow_right (by omega) short
      _ ≤ u64Size := by decide
  rw [padded_eq bound]
  rcases Nat.le_total ds.length maxDigits with le | ge
  · rw [take_of_length_le le, show 10 ^ maxDigits = 10 ^ (maxDigits - ds.length) * 10 ^ ds.length by
      rw [← pow_add]; congr 1; omega, ← Nat.mul_assoc, Nat.mul_div_cancel _ (Nat.pow_pos (by omega))]
  · rw [decimal_take all, Nat.sub_eq_zero_of_le ge, pow_zero, Nat.mul_one,
      show 10 ^ ds.length = 10 ^ (ds.length - maxDigits) * 10 ^ maxDigits by rw [← pow_add]; congr 1; omega,
      Nat.mul_div_mul_right _ _ (Nat.pow_pos (by omega))]

theorem scanFractionalN_some {buf : List UInt8} {pos stop : Nat} (short : maxDigits ≤ 18)
    (read : scanFractionalN buf pos maxDigits = some (v, stop)) :
    ∃ ds rest, IsRun ds ∧ buf.drop pos = ds ++ rest ∧ Stops rest ∧
      v = decimal ds * 10 ^ maxDigits / 10 ^ ds.length ∧ stop = pos + ds.length := by
  obtain ⟨rest, eq, stops⟩ := digits_rest (buf.drop pos)
  rw [scanFractionalN_eq short] at read
  dsimp only at read
  split at read
  · cases read
  · rename_i some
    cases read
    exact ⟨digits (buf.drop pos), rest, ⟨some, fun b => digits_all⟩, eq, stops, rfl, rfl⟩

theorem scaledNat_sub (m n k : Nat) : scaledNat m (-(k : Int) + n) = m * 10 ^ n / 10 ^ k := by
  unfold scaledNat
  split
  · rename_i up
    rw [show (-(k : Int) + n).toNat = n - k by omega, show n = n - k + k by omega, pow_add, ← Nat.mul_assoc,
      Nat.mul_div_cancel _ (Nat.pow_pos (by omega)), Nat.add_sub_cancel]
  · rename_i down
    rw [show (-(-(k : Int) + n)).toNat = k - n by omega, show 10 ^ k = 10 ^ (k - n) * 10 ^ n by
      rw [← pow_add]; congr 1; omega, Nat.mul_div_mul_right _ _ (Nat.pow_pos (by omega))]

theorem scaledNat_decimal (ds fs : List UInt8) (n : Nat) :
    scaledNat (decimal (ds ++ fs)) (-(fs.length : Int) + n) =
      decimal ds * 10 ^ n + decimal fs * 10 ^ n / 10 ^ fs.length := by
  rw [scaledNat_sub, decimal_append, Nat.add_mul, Nat.mul_right_comm, Nat.add_comm,
    Nat.add_mul_div_right _ _ (Nat.pow_pos (by omega)), Nat.add_comm]

theorem scanPriceN_reads (short : maxDigits ≤ 18) {buf : List UInt8} {pos : Nat} {v : Int} {stop : Nat}
    (read : scanPriceN (10 ^ maxDigits) maxDigits buf pos = some (v, stop)) : Reads false maxDigits buf pos v stop := by
  obtain ⟨first, here, read⟩ := bind_eq_some_iff.mp read
  obtain ⟨⟨whole, mid⟩, readWhole, read⟩ := bind_eq_some_iff.mp read
  obtain ⟨⟨frac, last⟩, readFrac, read⟩ := bind_eq_some_iff.mp read
  obtain ⟨ds, rest, run, eq, stops, rfl, rfl⟩ := scanU64_some readWhole
  dsimp only at read readFrac
  split at read
  · obtain ⟨rfl, rfl⟩ := Prod.mk.inj (Option.some.inj read)
    rw [byte_past eq] at readFrac
    by_cases dot : rest.head? = some point
    · obtain ⟨tail, rfl⟩ := head?_eq_some_iff.mp dot
      rw [if_pos dot] at readFrac
      obtain ⟨fs, rest', run', eq', stops', rfl, rfl⟩ := scanFractionalN_some short readFrac
      have after : tail = fs ++ rest' := by
        rw [← eq', ← drop_drop, drop_past eq]
        rfl
      have stands := token_stands here ⟨decide (first = minus), ds, some fs, none⟩ rest' rfl
        (by rw [eq, after]; simp [fracText, expText])
      refine ⟨_, rest', ⟨run, ?_, by simp⟩, fun _ => rfl, stands.1, ?_, ⟨stops', nofun, nofun⟩, ?_⟩
      · rintro _ ⟨⟩
        exact run'
      · rw [← stands.2]
        simp [fracText, expText]
        omega
      · rw [truncate_value]
        have mag := scaledNat_decimal ds fs maxDigits
        simp only [mantissa, power, fracDigits, getD_some, map_none, getD_none, zero_sub, mag, decide_eq_true_eq]
    · rw [if_neg dot] at readFrac
      obtain ⟨rfl, rfl⟩ := Prod.mk.inj (Option.some.inj readFrac)
      have stands := token_stands here ⟨decide (first = minus), ds, none, none⟩ rest rfl
        (by rw [eq]; simp [fracText, expText])
      refine ⟨_, rest, ⟨run, by simp, by simp⟩, fun _ => rfl, stands.1, stands.2, ⟨stops, fun _ _ => dot, nofun⟩, ?_⟩
      rw [truncate_value]
      have mag := scaledNat_decimal ds [] maxDigits
      simp only [mantissa, power, fracDigits, getD_none, map_none, zero_sub, mag, decide_eq_true_eq]
      simp [decimal, decimalFrom]
  · cases read

theorem scanPriceN_text (short : maxDigits ≤ 18) {t : NumberToken} (wf : t.WellFormed) (plain : t.exp = none)
    {mag : Nat} (value : decimal t.whole * 10 ^ maxDigits + decimal t.fracDigits * 10 ^ maxDigits / 10 ^ t.fracDigits.length = mag)
    (fits : (mag : Int) ≤ i64Max) :
    scanPriceN (10 ^ maxDigits) maxDigits t.text 0 = some (if t.negative then -(mag : Int) else mag, t.text.length) := by
  obtain ⟨negative, ds, frac, exp⟩ := t
  obtain rfl : exp = none := plain
  obtain ⟨run, fracRun, -⟩ := wf
  simp only [fracDigits] at value run fracRun
  obtain ⟨d, tail, rfl⟩ := exists_cons_of_ne_nil run.1
  have notMinus : d ≠ minus := by
    rintro rfl
    exact absurd (run.2 minus (by simp)) (by decide)
  -- the sign is one byte or none, and the rest of the text stands behind it
  generalize behind : (d :: tail) ++ (frac.map fun fs => point :: fs).getD [] = body
  have text : (mk negative (d :: tail) frac none).text = (if negative then [minus] else []) ++ body := by
    simp [text, signText, fracText, expText, ← behind]
  rw [text]
  generalize sign : (if negative then [minus] else []) = front
  have first : (front ++ body)[0]? = some (if negative then minus else d) := by
    rw [← sign, ← behind]
    cases negative <;> rfl
  have start : (if (if negative then minus else d) = minus then 0 + 1 else 0) = front.length := by
    rw [← sign]
    cases negative
    · simp [notMinus]
    · rfl
  have isNeg : ((if negative then minus else d) = minus) = (negative = true) := by
    cases negative <;> simp [notMinus]
  have here : (front ++ body).drop front.length = (d :: tail) ++ (frac.map fun fs => point :: fs).getD [] := by
    rw [drop_left, behind]
  have whole : digits ((front ++ body).drop front.length) = d :: tail := by
    rw [here]
    refine digits_append run.2 fun b => ?_
    cases frac with
    | none => simp
    | some fs =>
      rintro head
      obtain rfl : point = b := by simpa using head
      decide
  have magFits : mag ≤ u64Max := by
    unfold i64Max u64Max at *
    omega
  have scaledFits : decimal (d :: tail) * 10 ^ maxDigits ≤ u64Max := (value ▸ Nat.le_add_right _ _ : _ ≤ mag).trans magFits
  have wholeFits : decimal (d :: tail) ≤ u64Max :=
    (Nat.le_mul_of_pos_right _ (show 0 < 10 ^ maxDigits from Nat.pow_pos (by omega))).trans scaledFits
  have readFrac : (if (front ++ body)[front.length + (d :: tail).length]? = some point then
      scanFractionalN (front ++ body) (front.length + (d :: tail).length + 1) maxDigits
      else some (0, front.length + (d :: tail).length)) =
      some (decimal (frac.getD []) * 10 ^ maxDigits / 10 ^ (frac.getD []).length, (front ++ body).length) := by
    rw [byte_past here]
    cases frac with
    | none =>
      rw [if_neg (by simp), ← behind]
      simp [decimal, decimalFrom]
    | some fs =>
      have after : (front ++ body).drop (front.length + (d :: tail).length + 1) = fs := by
        rw [← drop_drop, drop_past here]
        rfl
      have run' := fracRun fs rfl
      have only : digits (fs ++ []) = fs := digits_append run'.2 fun _ head => by cases head
      rw [append_nil] at only
      refine (if_pos rfl).trans ?_
      rw [scanFractionalN_eq short, after]
      dsimp only
      rw [only, if_neg run'.1, ← behind]
      simp
      omega
  unfold scanPriceN
  rw [first, bind_some, start, scanU64_eq, whole, if_neg (by simp only [not_or, not_lt]; exact ⟨by simp, wholeFits⟩),
    bind_some]
  dsimp only
  rw [readFrac, bind_some]
  dsimp only
  rw [value, if_pos ⟨scaledFits, magFits, fits⟩]
  simp only [isNeg]

/-! ### Exponents -/

theorem i32Wrap_sub (x y : Int) : i32Wrap (i32Wrap x - y) = i32Wrap (x - y) := by
  simp only [i32Wrap, i32Min]
  omega

theorem foldlM_mantissa (fs : List UInt8) (v : Nat) (d : Int) :
    fs.foldlM mantissaStep (v, i32Wrap d) =
      (fs.foldlM (checkedStep u128Max) v).map fun m => (m, i32Wrap (d - fs.length)) := by
  induction fs generalizing v d with
  | nil => simp
  | cons b fs ih =>
    rw [foldlM_cons, foldlM_cons, mantissaStep]
    cases checkedStep u128Max v b with
    | none => rfl
    | some m =>
      simp only [map_some, bind_eq_bind, bind_some]
      rw [i32Wrap_sub, ih, length_cons, Nat.cast_succ, sub_sub, add_comm (1 : Int)]

theorem scanMantissa_some {buf ds : List UInt8} {pos stop : Nat} {dec : Int}
    (whole : decimal ds ≤ u128Max) (stops : Stops (buf.drop pos))
    (read : scanMantissa buf pos (decimal ds) = some (m, dec, stop)) :
    ∃ (frac : Option (List UInt8)) (rest : List UInt8), (∀ fs ∈ frac, IsRun fs) ∧
      buf.drop pos = (frac.map fun fs => point :: fs).getD [] ++ rest ∧
      Stops rest ∧ (frac = none → rest.head? ≠ some point) ∧
      m = decimal (ds ++ frac.getD []) ∧ m ≤ u128Max ∧ dec = i32Wrap (-((frac.getD []).length : Int)) ∧
      stop = pos + ((frac.map fun fs => point :: fs).getD []).length := by
  unfold scanMantissa at read
  rw [byte_at] at read
  by_cases dot : (buf.drop pos).head? = some point
  · obtain ⟨tail, eq⟩ := head?_eq_some_iff.mp dot
    have next : buf.drop (pos + 1) = tail := by rw [← drop_drop, eq]; rfl
    obtain ⟨rest, parts, after⟩ := digits_rest tail
    rw [if_pos dot, next, runDigits_eq, show (0 : Int) = i32Wrap 0 from rfl, foldlM_mantissa,
      foldlM_checked whole, decimalFrom_eq, ← decimal_append] at read
    have all : ∀ b ∈ digits tail, isDigit b = true := fun b => digits_all
    generalize digits tail = fs at *
    by_cases fits : decimal (ds ++ fs) ≤ u128Max
    · rw [if_pos fits, map_some, map_some, bind_some] at read
      dsimp only at read
      split at read
      · cases read
      rename_i nonempty
      cases read
      refine ⟨some fs, rest, ?_, ?_, after, nofun, rfl, fits, by simp, by simp; omega⟩
      · rintro _ ⟨⟩
        exact ⟨fun nil => nonempty (by rw [nil]; rfl), all⟩
      · rw [eq, parts]
        rfl
    · rw [if_neg fits] at read
      cases read
  · rw [if_neg dot] at read
    cases read
    exact ⟨none, buf.drop pos, by simp, rfl, stops, fun _ => dot, by simp, whole, rfl, rfl⟩

theorem foldlM_exponent (ds : List UInt8) (v : Nat) :
    ds.foldlM exponentStep (min (v : Int) i32Max) = some (min (decimalFrom v ds : Int) i32Max) := by
  induction ds generalizing v with
  | nil => rfl
  | cons b ds ih =>
    have next : decimalFrom v (b :: ds) = decimalFrom (v * 10 + digit b) ds := rfl
    have step : i32Clamp (i32Clamp (min (v : Int) i32Max * 10) + digit b) = min ((v * 10 + digit b : Nat) : Int) i32Max := by
      simp only [i32Clamp, i32Min, i32Max]
      omega
    rw [foldlM_cons, exponentStep, next, ← ih, step]
    rfl

/-- The exponent as the scanner holds it: its value, cut off at 32 bits. -/
def heldExponent : Option ExponentPart → Int
  | none => 0
  | some e => if e.sign = some minus then -min (decimal e.digits : Int) i32Max else min (decimal e.digits : Int) i32Max

theorem scanExponent_some {buf : List UInt8} {pos stop : Nat} {e : Int}
    (stops : Stops (buf.drop pos)) (read : scanExponent buf pos = some (e, stop)) :
    ∃ (exp : Option ExponentPart) (rest : List UInt8), (∀ x ∈ exp, x.WellFormed) ∧
      buf.drop pos = (exp.map ExponentPart.text).getD [] ++ rest ∧ Stops rest ∧
      (exp = none → rest = buf.drop pos ∧ rest.head? ≠ some lowerE ∧ rest.head? ≠ some upperE) ∧
      e = heldExponent exp ∧ stop = pos + ((exp.map ExponentPart.text).getD []).length := by
  unfold scanExponent at read
  by_cases marked : buf[pos]? = some lowerE ∨ buf[pos]? = some upperE
  · obtain ⟨letter, here, known⟩ : ∃ letter, buf[pos]? = some letter ∧ (letter = lowerE ∨ letter = upperE) := by
      rcases marked with here | here <;> exact ⟨_, here, by simp⟩
    rw [if_pos marked] at read
    rw [byte_at] at here
    obtain ⟨tail, eq⟩ := head?_eq_some_iff.mp here
    have next : buf.drop (pos + 1) = tail := by rw [← drop_drop, eq]; rfl
    have sign : buf[pos + 1]? = tail.head? := by rw [byte_at, next]
    rw [sign] at read
    -- the sign byte, if any, and the bytes behind it
    obtain ⟨mark, body, split, marks, start, neg⟩ : ∃ (mark : Option UInt8) (body : List UInt8),
        tail = mark.toList ++ body ∧ (∀ s ∈ mark, s = plus ∨ s = minus) ∧
        (if tail.head? = some plus ∨ tail.head? = some minus then pos + 2 else pos + 1) = pos + 1 + mark.toList.length ∧
        (tail.head? = some minus ↔ mark = some minus) := by
      by_cases signed : tail.head? = some plus ∨ tail.head? = some minus
      · obtain ⟨mark, head, kind⟩ : ∃ mark, tail.head? = some mark ∧ (mark = plus ∨ mark = minus) := by
          rcases signed with head | head <;> exact ⟨_, head, by simp⟩
        obtain ⟨body, rfl⟩ := head?_eq_some_iff.mp head
        exact ⟨some mark, body, rfl, by simpa using kind, by rw [if_pos signed]; rfl, by simp⟩
      · refine ⟨none, tail, rfl, by simp, by rw [if_neg signed]; rfl, ?_⟩
        simp only [reduceCtorEq, iff_false]
        tauto
    have place : buf.drop (pos + 1 + mark.toList.length) = body := by rw [← drop_drop, next, split, drop_left]
    obtain ⟨rest, parts, after⟩ := digits_rest body
    have all : ∀ b ∈ digits body, isDigit b = true := fun b => digits_all
    have fold := foldlM_exponent (digits body) 0
    rw [show min ((0 : Nat) : Int) i32Max = 0 from rfl] at fold
    dsimp only at read
    rw [start, place, runDigits_eq, fold, map_some, bind_some] at read
    generalize digits body = ds at *
    dsimp only at read
    split at read
    · cases read
    rename_i nonempty
    obtain ⟨rfl, rfl⟩ := Prod.mk.inj (Option.some.inj read)
    have run : IsRun ds := ⟨fun nil => nonempty (by rw [nil]; rfl), all⟩
    refine ⟨some ⟨letter, mark, ds⟩, rest, ?_, ?_, after, nofun, ?_, ?_⟩
    · rintro _ ⟨⟩
      exact ⟨known, marks, run⟩
    · rw [eq, split, parts]
      simp [ExponentPart.text]
    · simp only [heldExponent, neg]
      rfl
    · simp [ExponentPart.text]
      omega
  · rw [if_neg marked] at read
    cases read
    rw [byte_at] at marked
    exact ⟨none, buf.drop pos, by simp, rfl, stops, fun _ => ⟨rfl, not_or.mp marked⟩, rfl, rfl⟩

/-! ### Scaling by the exponent -/

theorem scaledNat_far {power : Int} (fits : m ≤ u128Max) (far : power < -38) : scaledNat m power = 0 := by
  rw [scaledNat, if_neg (by omega)]
  refine Nat.div_eq_of_lt ?_
  calc m < 10 ^ 39 := lt_of_le_of_lt fits (by decide)
    _ ≤ 10 ^ (-power).toNat := Nat.pow_le_pow_right (by omega) (by omega)

theorem shifted_eq {scaled : Nat} {power : Int} (fits : m ≤ u128Max) (read : shifted m power = some scaled) :
    power ≤ 38 ∧ scaled = scaledNat m power := by
  unfold shifted at read
  split at read
  · rename_i up
    split at read
    · cases read
    split at read
    · cases read
      exact ⟨by omega, by rw [scaledNat, if_pos up]⟩
    · cases read
  · rename_i down
    split at read
    · rename_i far
      cases read
      exact ⟨by omega, (scaledNat_far fits (by omega)).symm⟩
    · cases read
      exact ⟨by omega, by rw [scaledNat, if_neg down]⟩

theorem shifted_exact {places scaled scale : Nat} {held exponent : Int} (fits : m ≤ u128Max) (low : 6 ≤ scale)
    (high : scale ≤ 9) (few : places < 2147483648)
    (cut : held = exponent ∧ -i32Max ≤ exponent ∧ exponent ≤ i32Max ∨
      i32Max < exponent ∧ held = i32Max ∧ places + 13 < 2147483648 ∨ exponent < -i32Max ∧ held = -i32Max)
    (read : shifted m (i32Clamp (i32Clamp (-(places : Int) + held) + scale)) = some scaled)
    (word : (scaled : Int) ≤ i64Max) : scaled = scaledNat m (exponent - places + scale) := by
  obtain ⟨near, rfl⟩ := shifted_eq fits read
  simp only [i32Clamp, i32Min, i32Max] at near word cut ⊢
  rcases cut with ⟨rfl, least, most⟩ | ⟨large, rfl, room⟩ | ⟨small, rfl⟩
  · rcases lt_or_ge (-(places : Int) + held) (-2147483648) with far | inside
    · rw [scaledNat_far fits (by omega), scaledNat_far fits (by omega)]
    · congr 1
      omega
  · -- what fits the word is too small for so large a power, unless it is nothing
    generalize power : max (-2147483648) (min (max (-2147483648) (min (-(places : Int) + 2147483647) 2147483647) + (scale : Int))
        2147483647) = p at *
    have zero : m = 0 := by
      by_contra some
      have large : 10 ^ 19 ≤ scaledNat m p := by
        rw [scaledNat, if_pos (by omega)]
        calc 10 ^ 19 ≤ 10 ^ p.toNat := Nat.pow_le_pow_right (by omega) (by omega)
          _ ≤ m * 10 ^ p.toNat := Nat.le_mul_of_pos_left _ (by omega)
      simp only [i64Max] at word
      omega
    subst zero
    simp [scaledNat]
  · rw [scaledNat_far fits (by omega), scaledNat_far fits (by omega)]

theorem heldExponent_cut {t : NumberToken} (wf : t.WellFormed) (short : t.text.length < 2147483648) :
    let exponent := (t.exp.map ExponentPart.value).getD 0
    heldExponent t.exp = exponent ∧ -i32Max ≤ exponent ∧ exponent ≤ i32Max ∨
      i32Max < exponent ∧ heldExponent t.exp = i32Max ∧ t.fracDigits.length + 13 < 2147483648 ∨
      exponent < -i32Max ∧ heldExponent t.exp = -i32Max := by
  cases exp : t.exp with
  | none => exact .inl ⟨rfl, by decide, by decide⟩
  | some e =>
    have long : i32Max < (decimal e.digits : Int) → 10 ≤ e.digits.length := by
      intro large
      by_contra few
      have small := decimal_lt_pow (wf.exp e exp).digits.2 (by omega : _ ≤ 9)
      simp only [i32Max] at large
      omega
    have room : 10 ≤ e.digits.length → t.fracDigits.length + 13 < 2147483648 := by
      intro many
      have whole : 0 < t.whole.length := length_pos_of_ne_nil wf.whole.1
      rw [text, expText, exp] at short
      simp only [map_some, getD_some, ExponentPart.text, length_append, length_cons] at short
      cases frac : t.frac with
      | none =>
        rw [fracDigits, frac]
        decide
      | some fs =>
        rw [fracText, frac] at short
        rw [fracDigits, frac]
        simp only [map_some, getD_some, length_cons] at short ⊢
        omega
    simp only [heldExponent, map_some, getD_some, ExponentPart.value]
    have nonneg : 0 ≤ (decimal e.digits : Int) := Int.natCast_nonneg _
    generalize (decimal e.digits : Int) = d at *
    by_cases neg : e.sign = some minus
    · simp only [neg, if_true]
      by_cases large : i32Max < d
      · exact .inr (.inr ⟨by omega, by rw [min_eq_right large.le]⟩)
      · exact .inl ⟨by rw [min_eq_left (not_lt.mp large)], by omega, by simp only [i32Max]; omega⟩
    · simp only [neg, if_false]
      by_cases large : i32Max < d
      · exact .inr (.inl ⟨large, min_eq_right large.le, room (long large)⟩)
      · exact .inl ⟨min_eq_left (not_lt.mp large), by simp only [i32Max]; omega, not_lt.mp large⟩

theorem scanNumberSciScaled_some {scale : Int} {buf : List UInt8} {pos : Nat} {v : Int} {stop : Nat}
    (read : scanNumberSciScaled scale buf pos = some (v, stop)) :
    ∃ (t : NumberToken) (rest : List UInt8) (scaled : Nat), t.WellFormed ∧ buf.drop pos = t.text ++ rest ∧
      stop = pos + t.text.length ∧ t.EndsBefore true rest ∧ t.mantissa ≤ u128Max ∧
      shifted t.mantissa (i32Clamp (i32Clamp (i32Wrap (-(t.fracDigits.length : Int)) + heldExponent t.exp) + scale)) =
        some scaled ∧ (scaled : Int) ≤ i64Max ∧ v = if t.negative then -(scaled : Int) else scaled := by
  obtain ⟨first, here, read⟩ := bind_eq_some_iff.mp read
  dsimp only at read
  rw [runDigits_eq, foldlM_checked (Nat.zero_le _)] at read
  obtain ⟨rest, eq, stops⟩ := digits_rest (buf.drop (if first = minus then pos + 1 else pos))
  have all : ∀ b ∈ digits (buf.drop (if first = minus then pos + 1 else pos)), isDigit b = true := fun b => digits_all
  generalize digits (buf.drop (if first = minus then pos + 1 else pos)) = ds at *
  change Option.bind (Option.map _ (if decimal ds ≤ u128Max then some (decimal ds) else none)) _ = _ at read
  by_cases fits : decimal ds ≤ u128Max
  · rw [if_pos fits, map_some, bind_some] at read
    dsimp only at read
    rw [Nat.zero_add] at read
    by_cases nonempty : ds.length = 0
    · rw [if_pos nonempty] at read
      cases read
    rw [if_neg nonempty] at read
    have run : IsRun ds := ⟨fun nil => nonempty (by rw [nil]; rfl), all⟩
    obtain ⟨⟨m, dec, mid⟩, readMantissa, behind⟩ := bind_eq_some_iff.mp read
    obtain ⟨⟨e, last⟩, readExponent, scales⟩ := bind_eq_some_iff.mp behind
    obtain ⟨scaled, readScaled, answer⟩ := bind_eq_some_iff.mp scales
    dsimp only at readExponent readScaled answer
    have past := drop_past eq
    obtain ⟨frac, rest', runs, eq', stops', noPoint, rfl, fits', rfl, rfl⟩ :=
      scanMantissa_some fits (by rwa [past]) readMantissa
    have past' := drop_past eq'
    rw [past] at eq'
    obtain ⟨exp, rest'', wf, eq'', stops'', bare, rfl, rfl⟩ := scanExponent_some (by rwa [past']) readExponent
    rw [past'] at eq'' bare
    by_cases word : (scaled : Int) ≤ i64Max
    · rw [if_pos word] at answer
      obtain ⟨rfl, rfl⟩ := Prod.mk.inj (Option.some.inj answer)
      have stands := token_stands here ⟨decide (first = minus), ds, frac, exp⟩ rest'' rfl
        (by rw [eq, eq', eq'']; simp only [fracText, expText, append_assoc])
      refine ⟨⟨decide (first = minus), ds, frac, exp⟩, rest'', scaled, ⟨run, runs, wf⟩, stands.1, stands.2,
        ⟨stops'', fun none absent => ?_, fun none _ => (bare none).2⟩, fits', readScaled, word, by simp⟩
      rw [(bare none).1]
      exact noPoint absent
    · rw [if_neg word] at answer
      cases answer
  · rw [if_neg fits] at read
    cases read

theorem scanNumberSciScaled_reads {scale : Nat} (low : 6 ≤ scale) (high : scale ≤ 9) {buf : List UInt8} {pos : Nat}
    {v : Int} {stop : Nat} (short : buf.length < 2147483648)
    (read : scanNumberSciScaled scale buf pos = some (v, stop)) : Reads true scale buf pos v stop := by
  obtain ⟨t, rest, scaled, wf, stands, rfl, ends, fits, readScaled, word, rfl⟩ := scanNumberSciScaled_some read
  have length : t.text.length < 2147483648 := by
    have := congrArg length stands
    rw [length_drop, length_append] at this
    omega
  have places : t.fracDigits.length < 2147483648 := by
    refine lt_of_le_of_lt ?_ length
    rw [text, fracText, fracDigits]
    cases t.frac <;> simp
    omega
  have exactly : i32Wrap (-(t.fracDigits.length : Int)) = -(t.fracDigits.length : Int) := by
    simp only [i32Wrap, i32Min]
    omega
  rw [exactly] at readScaled
  have value := shifted_exact fits low high places (heldExponent_cut wf length) readScaled word
  refine ⟨t, rest, wf, nofun, stands, rfl, ends, ?_⟩
  rw [truncate_value, value]
  rfl

/-! ### A buffer too long for the exponent -/

/-- `2147483648`, one more than 32 bits hold. -/
def pastI32 : List UInt8 := [50, 49, 52, 55, 52, 56, 51, 54, 52, 56]

/-- `0.00…01e2147483648`, with the zeros behind the point given. -/
def smallToken (zeros : Nat) : NumberToken where
  negative := false
  whole := [48]
  frac := some (replicate zeros 48 ++ [49])
  exp := some ⟨lowerE, none, pastI32⟩

section Long

variable {zeros : Nat} {tail : List UInt8}

theorem smallToken_text (zeros : Nat) :
    (smallToken zeros).text = 48 :: point :: (replicate zeros 48 ++ [49] ++ (lowerE :: pastI32)) := by
  simp [text, signText, fracText, expText, ExponentPart.text, smallToken]

theorem smallToken_length (zeros : Nat) : (smallToken zeros).text.length = zeros + 14 := by
  rw [smallToken_text]
  simp [pastI32]

theorem zeros_run (zeros : Nat) : IsRun (replicate zeros 48 ++ [49]) := by
  refine ⟨by simp, fun b member => ?_⟩
  rcases mem_append.mp member with zero | one
  · rw [(mem_replicate.mp zero).2]
    decide
  · rw [mem_singleton.mp one]
    decide

theorem pastI32_run : IsRun pastI32 := ⟨by decide, by simp [pastI32, isDigit]⟩

theorem decimal_zeros (zeros : Nat) : decimal (replicate zeros 48 ++ [49]) = 1 := by
  rw [decimal_append, decimal_replicate_zero]
  rfl

theorem smallToken_wf (zeros : Nat) : (smallToken zeros).WellFormed := by
  refine ⟨⟨by simp [smallToken], ?_⟩, ?_, ?_⟩
  · intro b member
    rw [mem_singleton.mp member]
    decide
  · rintro _ ⟨⟩
    exact zeros_run zeros
  · rintro _ ⟨⟩
    exact ⟨.inl rfl, by simp, pastI32_run⟩

theorem smallToken_mantissa (zeros : Nat) : (smallToken zeros).mantissa = 1 := by
  rw [mantissa, decimal_append]
  change decimal [48] * _ + decimal (replicate zeros 48 ++ [49]) = 1
  rw [decimal_zeros, show decimal [48] = 0 from rfl, Nat.zero_mul]

theorem head_lowerE {rest : List UInt8} : Stops (lowerE :: rest) := by
  intro b first
  obtain rfl : lowerE = b := by simpa using first
  decide

theorem scanMantissa_places {fs rest : List UInt8} (run : IsRun fs) (fits : decimal fs ≤ u128Max) (stops : Stops rest) :
    scanMantissa (48 :: point :: (fs ++ rest)) 1 0 = some (decimal fs, i32Wrap (-(fs.length : Int)), 2 + fs.length) := by
  have nonempty : ¬ 0 + fs.length = 0 := by
    have := length_pos_of_ne_nil run.1
    omega
  rw [scanMantissa, if_pos (by simp), drop_succ_cons, drop_succ_cons, drop_zero, runDigits_eq,
    digits_append run.2 stops, show (0 : Int) = i32Wrap 0 from rfl, foldlM_mantissa, foldlM_checked (Nat.zero_le _)]
  change Option.bind (Option.map _ (Option.map _ (if decimal fs ≤ u128Max then some (decimal fs) else none))) _ = _
  rw [if_pos fits, map_some, map_some, bind_some, if_neg nonempty, zero_sub, Nat.zero_add]

theorem scanExponent_past (front : List UInt8) (stops : Stops tail) :
    scanExponent (front ++ (lowerE :: (pastI32 ++ tail))) front.length = some (i32Max, front.length + 11) := by
  have here : (front ++ (lowerE :: (pastI32 ++ tail)))[front.length]? = some lowerE := by simp
  have next : (front ++ (lowerE :: (pastI32 ++ tail)))[front.length + 1]? = some 50 := by
    rw [getElem?_append_right (by omega), Nat.add_sub_cancel_left]
    rfl
  have after : (front ++ (lowerE :: (pastI32 ++ tail))).drop (front.length + 1) = pastI32 ++ tail := by
    rw [← drop_drop, drop_left]
    rfl
  have fold := foldlM_exponent pastI32 0
  have most : min ((decimalFrom 0 pastI32 : Nat) : Int) i32Max = i32Max := by decide
  rw [show min ((0 : Nat) : Int) i32Max = 0 from rfl, most] at fold
  rw [scanExponent, if_pos (.inl here), next]
  dsimp only
  rw [if_neg (by decide), after, runDigits_eq, digits_append pastI32_run.2 stops, fold]
  simp [pastI32, minus]

theorem scanNumberSciScaled_past {fs : List UInt8} (run : IsRun fs) (fits : decimal fs ≤ u128Max)
    (stops : Stops tail) (scale : Int) :
    scanNumberSciScaled scale (48 :: point :: (fs ++ (lowerE :: (pastI32 ++ tail)))) 0 =
      (shifted (decimal fs) (i32Clamp (i32Clamp (i32Wrap (-(fs.length : Int)) + i32Max) + scale))).bind fun scaled =>
        if (scaled : Int) ≤ i64Max then some ((scaled : Int), fs.length + 13) else none := by
  have whole : runDigits (checkedStep u128Max) (48 :: point :: (fs ++ (lowerE :: (pastI32 ++ tail)))) 0 0 = some (0, 1) := by
    simp [runDigits, isDigit, checkedStep, digit, point]
  have exponent := scanExponent_past (48 :: point :: fs) stops
  rw [length_cons, length_cons, cons_append, cons_append] at exponent
  rw [scanNumberSciScaled, getElem?_cons_zero, bind_some]
  dsimp only
  rw [if_neg (by decide), drop_zero, whole, bind_some]
  dsimp only
  rw [if_neg (by decide), Nat.zero_add, scanMantissa_places run fits head_lowerE, bind_some]
  dsimp only
  rw [Nat.add_comm 2, exponent, bind_some]
  simp only [show ¬ (48 : UInt8) = minus by decide, if_false]

theorem scan_smallToken (stops : Stops tail) (count : zeros = 2147483634) :
    scanNumberSci1e6 ((smallToken zeros).text ++ tail) 0 = some (1000000000000000000, zeros + 14) := by
  have text : (smallToken zeros).text ++ tail =
      48 :: point :: ((replicate zeros 48 ++ [49]) ++ (lowerE :: (pastI32 ++ tail))) := by
    rw [smallToken_text]
    simp
  have length : (replicate zeros (48 : UInt8) ++ [49]).length = zeros + 1 := by simp
  have power : i32Clamp (i32Clamp (i32Wrap (-((zeros + 1 : Nat) : Int)) + i32Max) + 6) = 18 := by
    simp only [i32Clamp, i32Wrap, i32Min, i32Max]
    omega
  rw [text, scanNumberSci1e6, scanNumberSciScaled_past (zeros_run zeros) (by rw [decimal_zeros]; decide) stops,
    decimal_zeros, length, power, show shifted 1 18 = some 1000000000000000000 by decide, bind_some, if_pos (by decide)]
  rfl

theorem not_reads_smallToken (count : zeros = 2147483634) :
    ¬ Reads true 6 ((smallToken zeros).text ++ tail) 0 1000000000000000000 (zeros + 14) := by
  rintro ⟨t, rest, wf, -, stands, stop, -, value⟩
  rw [drop_zero] at stands
  have length : (smallToken zeros).text.length = t.text.length := by
    rw [smallToken_length]
    omega
  obtain rfl := text_inj (smallToken_wf zeros) wf (append_inj_left stands length)
  have places : (smallToken zeros).fracDigits.length = zeros + 1 := by
    change (replicate zeros (48 : UInt8) ++ [49]).length = zeros + 1
    simp
  have power : (smallToken zeros).power + (6 : Nat) = 19 := by
    rw [power, places]
    change (2147483648 : Int) - _ + _ = _
    omega
  rw [truncate_value, power, smallToken_mantissa] at value
  revert value
  change ¬ (1000000000000000000 : Int) = (scaledNat 1 19 : Int)
  decide

end Long

/-- What every scanner answers at one position of one buffer. -/
structure Exact (buf : List UInt8) (pos : Nat) : Prop where
  u64 : scanU64 buf pos =
    let ds := digits (buf.drop pos)
    if ds = [] ∨ u64Max < decimal ds then none else some (decimal ds, pos + ds.length)
  i64 : scanI64 buf pos =
    let start := if buf[pos]? = some minus then pos + 1 else pos
    let ds := digits (buf.drop start)
    let v : Int := if buf[pos]? = some minus then -(decimal ds : Int) else decimal ds
    if ds = [] ∨ ¬ InI64 v then none else some (v, start + ds.length)
  price1e6 : ∀ v stop, scanPrice1e6 buf pos = some (v, stop) → Reads false 6 buf pos v stop
  price1e8 : ∀ v stop, scanPrice1e8 buf pos = some (v, stop) → Reads false 8 buf pos v stop
  price1e9 : ∀ v stop, scanPrice1e9 buf pos = some (v, stop) → Reads false 9 buf pos v stop
  sci1e6 : ∀ v stop, scanNumberSci1e6 buf pos = some (v, stop) → Reads true 6 buf pos v stop
  sci1e9 : ∀ v stop, scanNumberSci1e9 buf pos = some (v, stop) → Reads true 9 buf pos v stop

/-- The scanners are exact in every buffer of a length exactly when it is below `2 ^ 31`. -/
theorem scanners_exact_iff (length : Nat) :
    (∀ buf : List UInt8, buf.length = length → ∀ pos, Exact buf pos) ↔ length < 2147483648 := by
  constructor
  · intro exact
    by_contra long
    obtain ⟨zeros, count⟩ : ∃ zeros : Nat, zeros = 2147483634 := ⟨_, rfl⟩
    have stops : Stops (replicate (length - 2147483648) (32 : UInt8)) := by
      intro b first
      rw [(mem_replicate.mp (mem_of_head? first)).2]
      decide
    have size : ((smallToken zeros).text ++ replicate (length - 2147483648) 32).length = length := by
      rw [length_append, smallToken_length, length_replicate]
      omega
    exact not_reads_smallToken count ((exact _ size 0).sci1e6 _ _ (scan_smallToken stops count))
  · rintro short buf rfl pos
    exact ⟨scanU64_eq buf pos, scanI64_eq buf pos, fun _ _ => scanPriceN_reads (show 6 ≤ 18 by omega),
      fun _ _ => scanPriceN_reads (show 8 ≤ 18 by omega), fun _ _ => scanPriceN_reads (show 9 ≤ 18 by omega),
      fun _ _ => scanNumberSciScaled_reads (show 6 ≤ 6 by omega) (by omega) short,
      fun _ _ => scanNumberSciScaled_reads (show 6 ≤ 9 by omega) (by omega) short⟩

/-- `0.00…01e2147483648` with `2147483635` digits behind the point fills `2 ^ 31` bytes and is read as a tenth of
what it says. -/
theorem scanNumberSci1e6_misread :
    scanNumberSci1e6 ((smallToken 2147483634).text ++ []) 0 = some (1000000000000000000, 2147483634 + 14) ∧
    ¬ Reads true 6 ((smallToken 2147483634).text ++ []) 0 1000000000000000000 (2147483634 + 14) :=
  ⟨scan_smallToken nofun rfl, not_reads_smallToken rfl⟩

end TradingEngine.Parse
