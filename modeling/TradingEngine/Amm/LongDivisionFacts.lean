import TradingEngine.Amm.LongDivision
import TradingEngine.Amm.SwapStep

/-!
# The division is exact

Each pass over limbs has one equation between values.
-/

namespace TradingEngine.Amm

open Base Function Option

def Words (f : Limbs) : Prop := ∀ i, f i < radix

theorem radix_sq : radix * radix = u128Size := by decide

theorem radix_pos : 0 < radix := by decide

theorem join_eq {hi lo : Nat} (high : hi < radix) (low : lo < radix) : U128.join hi lo = some (hi * radix + lo) := by
  rw [U128.join, if_pos high, ← Nat.shiftLeft_add_eq_or_of_lt low, Nat.shiftLeft_eq]
  rfl

theorem U128.mul_eq {a b : Nat} (fits : a * b < u128Size) : U128.mul a b = some (a * b) := if_pos fits

theorem U128.add_eq {a b : Nat} (fits : a + b < u128Size) : U128.add a b = some (a + b) := if_pos fits

theorem Words.update {f : Limbs} (words : Words f) {k x : Nat} (word : x < radix) : Words (Function.update f k x) := by
  intro i
  rw [Function.update_apply]
  split
  · exact word
  · exact words i

theorem zero_words : Words Limbs.zero := fun _ => radix_pos

theorem mod_word (x : Nat) : x % radix < radix := Nat.mod_lt x radix_pos

theorem mul_add_add_lt {a b c d : Nat} (first : a < radix) (second : b < radix) (third : c < radix) (fourth : d < radix) :
    a * b + c + d < u128Size := by
  have product : a * b ≤ (radix - 1) * (radix - 1) := Nat.mul_le_mul (by omega) (by omega)
  have top : (radix - 1) * (radix - 1) + (radix - 1) + (radix - 1) < u128Size := by decide
  omega

/-- Words that differ from others in at most `k` limbs from `j` on. -/
structure Kept (un un' : Limbs) (j k : Nat) : Prop where
  words : Words un'
  rest : ∀ x, x < j ∨ j + k ≤ x → un' x = un x

theorem Kept.extend {un un' : Limbs} {j k x : Nat} (kept : Kept un un' j k) (word : x < radix) :
    Kept un (update un' (j + k) x) j (k + 1) := by
  refine ⟨kept.words.update word, fun y outside => ?_⟩
  rw [update_of_ne (by omega)]
  exact kept.rest y (by omega)

theorem value_extend (un : Limbs) (j k x : Nat) :
    value radix (fun t => update un (j + k) x (j + t)) (k + 1) = value radix (fun t => un (j + t)) k + x * radix ^ k := by
  rw [value_succ, update_self, value_congr fun i less => update_of_ne (by omega) _ _]

theorem carry_out (low t k : Nat) : low + t % radix * radix ^ k + radix ^ (k + 1) * (t / radix) = low + radix ^ k * t := by
  calc low + t % radix * radix ^ k + radix ^ (k + 1) * (t / radix)
      = low + radix ^ k * (radix * (t / radix) + t % radix) := by rw [pow_succ]; ring
    _ = low + radix ^ k * t := by rw [Nat.div_add_mod]

section Product

variable {a b r : Limbs} {ai i : Nat}

/-- What a row has done after `k` limbs. -/
structure RowDone (ai : Nat) (b : Limbs) (i : Nat) (r : Limbs) (k : Nat) (r' : Limbs) (carry : Nat) : Prop where
  run : row ai b i r k = some (r', carry)
  carried : carry < radix
  kept : Kept r r' i k
  sum : value radix (fun t => r' (i + t)) k + radix ^ k * carry =
    value radix (fun t => r (i + t)) k + ai * value radix b k

theorem row_done (factor : ai < radix) (limbs : Words b) (words : Words r) (k : Nat) :
    ∃ r' carry, RowDone ai b i r k r' carry := by
  induction k with
  | zero => exact ⟨r, 0, rfl, radix_pos, ⟨words, fun _ _ => rfl⟩, by simp⟩
  | succ k ih =>
    obtain ⟨r', carry, run, carried, kept, sum⟩ := ih
    have fits := mul_add_add_lt factor (limbs k) (kept.words (i + k)) carried
    obtain ⟨t, total⟩ : ∃ t, ai * b k + r' (i + k) + carry = t := ⟨_, rfl⟩
    have step : rowStep ai b i k (r', carry) = some (update r' (i + k) (t % radix), t / radix) := by
      unfold rowStep
      simp only [bind_eq_bind]
      rw [U128.mul_eq (by omega), bind_some, U128.add_eq (by omega), bind_some, U128.add_eq fits, bind_some, total]
    refine ⟨_, _, by rw [row, run, bind_some, step], ?_, kept.extend (mod_word t), ?_⟩
    · rw [Nat.div_lt_iff_lt_mul radix_pos, radix_sq]
      omega
    rw [value_extend, carry_out, value_succ, value_succ, ← total, kept.rest (i + k) (.inr le_rfl)]
    calc value radix (fun t' => r' (i + t')) k + radix ^ k * (ai * b k + r (i + k) + carry)
        = value radix (fun t' => r' (i + t')) k + radix ^ k * carry + radix ^ k * (ai * b k + r (i + k)) := by ring
      _ = value radix (fun t' => r (i + t')) k + r (i + k) * radix ^ k +
          ai * (value radix b k + b k * radix ^ k) := by
        rw [sum]
        ring

theorem fullMulRows_done (first : Words a) (second : Words b) (i : Nat) :
    ∃ r, fullMulRows a b i = some r ∧ Words r ∧ value radix r (i + 4) = value radix a i * value radix b 4 := by
  induction i with
  | zero => exact ⟨_, rfl, fun _ => radix_pos, (value_eq_zero fun _ _ => rfl).trans (Nat.zero_mul _).symm⟩
  | succ i ih =>
    obtain ⟨r, run, words, sum⟩ := ih
    obtain ⟨r', carry, run', carried, ⟨words', rest⟩, sum'⟩ := row_done (i := i) (first i) second words 4
    refine ⟨update r' (i + 4) (carry % radix), ?_, words'.update (mod_word carry), ?_⟩
    · rw [fullMulRows, run]
      simp only [bind_eq_bind, bind_some, run']
    rw [show i + 1 + 4 = i + 4 + 1 by omega, value_succ, value_update_of_le le_rfl, update_self, Nat.mod_eq_of_lt carried,
      value_add, value_congr fun x less => rest x (.inl less), pow_add]
    rw [value_add] at sum
    calc value radix r i + radix ^ i * value radix (fun t => r' (i + t)) 4 + carry * (radix ^ i * radix ^ 4)
        = value radix r i + radix ^ i * (value radix (fun t => r' (i + t)) 4 + radix ^ 4 * carry) := by ring
      _ = value radix r i + radix ^ i * value radix (fun t => r (i + t)) 4 + radix ^ i * (a i * value radix b 4) := by
        rw [sum']
        ring
      _ = value radix a (i + 1) * value radix b 4 := by
        rw [sum, value_succ radix a i]
        ring

end Product

/-! ### Lengths and shifts -/

section Shifts

variable {a : Limbs} {s : Nat}

theorem used_le (v : Limbs) (n : Nat) : used v n ≤ n := by
  induction n with
  | zero => exact le_rfl
  | succ n ih =>
    rw [used]
    split <;> omega

theorem used_clear (v : Limbs) (n : Nat) : ∀ i < n, used v n ≤ i → v i = 0 := by
  induction n with
  | zero => exact nofun
  | succ n ih =>
    intro i less above
    rw [used] at above
    split at above
    · rename_i zero
      rcases Nat.lt_or_eq_of_le (Nat.lt_succ_iff.mp less) with lower | rfl
      · exact ih i lower above
      · exact zero
    · omega

theorem used_top (v : Limbs) (n : Nat) (some_limb : used v n ≠ 0) : v (used v n - 1) ≠ 0 := by
  induction n with
  | zero => exact absurd rfl some_limb
  | succ n ih =>
    rw [used] at some_limb ⊢
    split
    · rename_i zero
      rw [if_pos zero] at some_limb
      exact ih some_limb
    · assumption

theorem value_used (v : Limbs) (n : Nat) : value radix v n = value radix v (used v n) :=
  value_of_clear (used_le v n) (used_clear v n)

theorem leadingZeros_spec {x : Nat} (positive : x ≠ 0) (word : x < radix) :
    leadingZeros x ≤ 63 ∧ 2 ^ 63 ≤ x * 2 ^ leadingZeros x ∧ x * 2 ^ leadingZeros x < radix := by
  have low := Nat.log2_self_le positive
  have high := Nat.lt_log2_self (n := x)
  have most : x.log2 < 64 := (Nat.log2_lt positive).mpr word
  rw [leadingZeros, if_neg positive]
  refine ⟨Nat.sub_le _ _, ?_, ?_⟩
  · calc 2 ^ 63 = 2 ^ x.log2 * 2 ^ (63 - x.log2) := by rw [← pow_add]; congr 1; omega
      _ ≤ x * 2 ^ (63 - x.log2) := Nat.mul_le_mul_right _ low
  · calc x * 2 ^ (63 - x.log2) < 2 ^ (x.log2 + 1) * 2 ^ (63 - x.log2) := Nat.mul_lt_mul_of_pos_right high (by positivity)
      _ = radix := by rw [← pow_add, show x.log2 + 1 + (63 - x.log2) = 64 by omega]; rfl

theorem radix_split (small : s ≤ 63) : radix = 2 ^ (64 - s) * 2 ^ s := by
  rw [← pow_add, show 64 - s + s = 64 by omega]
  rfl

theorem div_pow_lt {x b c : Nat} (word : x < radix) (sum : b + c = 64) : x / 2 ^ b < 2 ^ c := by
  rw [Nat.div_lt_iff_lt_mul (by positivity), ← pow_add, Nat.add_comm, sum]
  exact word

theorem mul_pow_add_lt {hi lo b c : Nat} (high : hi < 2 ^ b) (low : lo < 2 ^ c) (sum : b + c = 64) :
    hi * 2 ^ c + lo < radix := by
  calc hi * 2 ^ c + lo < (hi + 1) * 2 ^ c := by rw [Nat.succ_mul]; omega
    _ ≤ 2 ^ b * 2 ^ c := Nat.mul_le_mul_right _ high
    _ = radix := by rw [← pow_add, sum]; rfl

theorem shift_parts (small : s ≤ 63) (x : Nat) : x * 2 ^ s = x * 2 ^ s % radix + radix * (x / 2 ^ (64 - s)) := by
  have quotient : x * 2 ^ s / radix = x / 2 ^ (64 - s) := by
    rw [radix_split small, Nat.mul_div_mul_right _ _ (by positivity)]
  rw [← quotient]
  exact (Nat.mod_add_div _ _).symm

theorem shiftUp_zero : shiftUp a s 0 = a 0 * 2 ^ s % radix := by
  rw [shiftUp, if_pos rfl, Nat.shiftLeft_eq]

theorem shiftUp_succ (words : Words a) (small : s ≤ 63) (i : Nat) :
    shiftUp a s (i + 1) = a (i + 1) * 2 ^ s % radix + a i / 2 ^ (64 - s) := by
  rw [shiftUp, if_neg (Nat.succ_ne_zero i), Nat.add_sub_cancel]
  split
  · rename_i none
    rw [none, pow_zero, Nat.mul_one, Nat.mod_eq_of_lt (words _), show 2 ^ (64 - 0) = radix from rfl,
      Nat.div_eq_of_lt (words i)]
    rfl
  · have low := div_pow_lt (words i) (show 64 - s + s = 64 by omega)
    have clear : a (i + 1) * 2 ^ s % radix = (a (i + 1) % 2 ^ (64 - s)) <<< s := by
      rw [Nat.shiftLeft_eq, radix_split small, Nat.mul_mod_mul_right]
    rw [Nat.shiftLeft_eq, Nat.shiftRight_eq_div_pow, clear, Nat.shiftLeft_add_eq_or_of_lt low]

theorem shiftUp_word (words : Words a) (small : s ≤ 63) (i : Nat) : shiftUp a s i < radix := by
  cases i with
  | zero =>
    rw [shiftUp_zero]
    exact mod_word _
  | succ i =>
    have sum : 64 - s + s = 64 := by omega
    have high := Nat.mod_lt (a (i + 1)) (show 0 < 2 ^ (64 - s) by positivity)
    rw [shiftUp_succ words small, radix_split small, Nat.mul_mod_mul_right, ← radix_split small]
    exact mul_pow_add_lt high (div_pow_lt (words i) sum) sum

theorem value_shiftUp (words : Words a) (small : s ≤ 63) (k : Nat) :
    value radix (shiftUp a s) (k + 1) + radix ^ (k + 1) * (a k / 2 ^ (64 - s)) = 2 ^ s * value radix a (k + 1) := by
  induction k with
  | zero =>
    have parts := shift_parts small (a 0)
    rw [value_succ, value_succ, value_zero, value_zero, shiftUp_zero, pow_zero]
    simp only [Nat.zero_add, Nat.mul_one, pow_one]
    rw [Nat.mul_comm (2 ^ s)]
    exact parts.symm
  | succ k ih =>
    have parts := shift_parts small (a (k + 1))
    rw [value_succ radix (shiftUp a s) (k + 1), value_succ radix a (k + 1), shiftUp_succ words small]
    calc value radix (shiftUp a s) (k + 1) + (a (k + 1) * 2 ^ s % radix + a k / 2 ^ (64 - s)) * radix ^ (k + 1) +
          radix ^ (k + 1 + 1) * (a (k + 1) / 2 ^ (64 - s))
        = value radix (shiftUp a s) (k + 1) + radix ^ (k + 1) * (a k / 2 ^ (64 - s)) +
          radix ^ (k + 1) * (a (k + 1) * 2 ^ s % radix + radix * (a (k + 1) / 2 ^ (64 - s))) := by
          rw [pow_succ radix (k + 1)]
          ring
      _ = 2 ^ s * (value radix a (k + 1) + a (k + 1) * radix ^ (k + 1)) := by
          rw [ih, ← parts]
          ring

end Shifts

theorem shortDivide_done {u : Limbs} {d : Nat} (words : Words u) (positive : 0 < d) (limb : d < radix) (k : Nat) {q : Limbs}
    {rem : Nat} (less : rem < d) (quotient : Words q) :
    ∃ q' rem', shortDivide u d k q rem = some (q', rem') ∧ rem' < d ∧ Words q' ∧ (∀ x, k ≤ x → q' x = q x) ∧
      rem * radix ^ k + value radix u k = d * value radix q' k + rem' := by
  induction k generalizing q rem with
  | zero => exact ⟨q, rem, rfl, less, quotient, fun _ _ => rfl, by simp⟩
  | succ k ih =>
    obtain ⟨cur, joined⟩ : ∃ cur, rem * radix + u k = cur := ⟨_, rfl⟩
    have digit : cur / d < radix := by
      rw [Nat.div_lt_iff_lt_mul positive, ← joined]
      calc rem * radix + u k < rem * radix + radix := Nat.add_lt_add_left (words k) _
        _ = (rem + 1) * radix := (Nat.succ_mul _ _).symm
        _ ≤ radix * d := by rw [Nat.mul_comm radix]; exact Nat.mul_le_mul_right radix less
    obtain ⟨q', rem', run, small, words', rest, sum⟩ :=
      ih (Nat.mod_lt cur positive) (quotient.update (k := k) (mod_word (cur / d)))
    refine ⟨q', rem', ?_, small, words', fun x above => ?_, ?_⟩
    · rw [shortDivide, join_eq (less.trans limb) (words k), joined]
      exact run
    · rw [rest x (by omega), update_of_ne (by omega)]
    have here : q' k = cur / d := by rw [rest k le_rfl, update_self, Nat.mod_eq_of_lt digit]
    have parts := Nat.div_add_mod cur d
    rw [value_succ, value_succ, here, pow_succ]
    calc rem * (radix ^ k * radix) + (value radix u k + u k * radix ^ k)
        = (rem * radix + u k) * radix ^ k + value radix u k := by ring
      _ = (d * (cur / d) + cur % d) * radix ^ k + value radix u k := by rw [joined, parts]
      _ = d * (cur / d) * radix ^ k + (cur % d * radix ^ k + value radix u k) := by ring
      _ = d * (value radix q' k + cur / d * radix ^ k) + rem' := by
        rw [sum]
        ring

section Estimate

theorem top_pos {top : Nat} (normal : radix ≤ 2 * top) : 0 < top := by
  have := radix_pos
  omega

/-- The dividend's window and the divisor, by their leading limbs. -/
structure Leading (U V num top next low T : Nat) : Prop where
  normal : radix ≤ 2 * top
  word : top < radix
  nextWord : next < radix
  lowWord : low < radix
  dividend : (num * radix + low) * T ≤ U ∧ U < (num * radix + low + 1) * T
  divisor : (top * radix + next) * T ≤ V ∧ V < (top * radix + next + 1) * T
  bounded : num < (top + 1) * radix
  digit : U / V < radix
  positive : 0 < V

variable {U V num top next low T qhat rhat : Nat}

section

variable (leading : Leading U V num top next low T)

include leading

section

variable (split : qhat * top + rhat = num)

include split

theorem Leading.le_of_passed (small : qhat < radix) (passed : qhat * next ≤ rhat * radix + low) : qhat ≤ U / V + 1 := by
  have part : top * radix * T ≤ V := (Nat.mul_le_mul_right T (Nat.le_add_right _ next)).trans leading.divisor.1
  refine le_of_unrefuted leading.dividend.1 part leading.divisor.2 ?_ ?_ leading.positive
  · calc qhat * (top * radix + next) = qhat * top * radix + qhat * next := by ring
      _ ≤ qhat * top * radix + (rhat * radix + low) := Nat.add_le_add_left passed _
      _ = num * radix + low := by rw [← split]; ring
  · exact small.le.trans (Nat.le_mul_of_pos_left radix (top_pos leading.normal))

theorem Leading.lt_of_failed (failed : rhat * radix + low < qhat * next) : U / V < qhat := by
  refine lt_of_refuted leading.dividend.2 leading.divisor.1 ?_ leading.positive
  calc num * radix + low = qhat * top * radix + (rhat * radix + low) := by rw [← split]; ring
    _ < qhat * top * radix + qhat * next := Nat.add_lt_add_left failed _
    _ = qhat * (top * radix + next) := by ring

theorem Leading.refuted_done (remainder : rhat < radix) :
    (refuted next low qhat rhat = some true ∧ U / V < qhat) ∨
      (refuted next low qhat rhat = some false ∧ qhat < radix ∧ qhat ≤ U / V + 1) := by
  unfold refuted
  by_cases large : qhat ≥ radix
  · exact .inl ⟨if_pos large, leading.digit.trans_le large⟩
  rw [if_neg large]
  have small : qhat < radix := not_le.mp large
  have product : qhat * next < u128Size := by
    have sum := mul_add_add_lt small leading.nextWord radix_pos radix_pos
    omega
  simp only [bind_eq_bind]
  rw [U128.mul_eq product, bind_some, join_eq remainder leading.lowWord, bind_some]
  by_cases failed : qhat * next > rhat * radix + low
  · exact .inl ⟨by rw [decide_eq_true failed], leading.lt_of_failed split failed⟩
  · exact .inr ⟨by rw [decide_eq_false failed], small, leading.le_of_passed split small (not_lt.mp failed)⟩

theorem Leading.correct_done {fuel : Nat}
    (remainder : rhat < radix) (enough : U / V ≤ qhat) (fuelled : qhat < fuel + U / V) :
    ∃ digit count, correct top next low fuel qhat rhat = some (digit, count) ∧ U / V ≤ digit ∧ digit ≤ U / V + 1 ∧
      digit < radix ∧ digit + count = qhat := by
  induction fuel generalizing qhat rhat with
  | zero => omega
  | succ fuel ih =>
    rw [correct]
    simp only [bind_eq_bind]
    rcases leading.refuted_done split remainder with ⟨test, more⟩ | ⟨test, small, near⟩
    · rw [test, bind_some, if_pos rfl]
      obtain ⟨q, rfl⟩ : ∃ q, qhat = q + 1 := Nat.exists_eq_add_of_le' (Nat.zero_lt_of_lt more)
      have sum : rhat + top < u128Size := by
        have word := leading.word
        have room : radix + radix < u128Size := by decide
        omega
      have next_split : q * top + (rhat + top) = num := by rw [← split]; ring
      rw [U128.sub, if_pos (by omega), Nat.add_sub_cancel, bind_some, U128.add_eq sum, bind_some]
      by_cases wide : rhat + top ≥ radix
      · rw [if_pos wide]
        have small : q < radix := by
          by_contra large
          have wide_part : radix * top ≤ q * top := Nat.mul_le_mul_right top (not_lt.mp large)
          have bounded := leading.bounded
          rw [Nat.succ_mul, Nat.mul_comm top] at bounded
          omega
        have passed : q * next ≤ (rhat + top) * radix + low := by
          calc q * next ≤ radix * radix := Nat.mul_le_mul small.le leading.nextWord.le
            _ ≤ (rhat + top) * radix := Nat.mul_le_mul_right radix wide
            _ ≤ (rhat + top) * radix + low := Nat.le_add_right _ _
        exact ⟨q, 1, rfl, by omega, leading.le_of_passed next_split small passed, small, rfl⟩
      · rw [if_neg wide]
        obtain ⟨digit, count, run, least, most, word, sum⟩ := ih next_split (not_le.mp wide) (by omega) (by omega)
        rw [run]
        exact ⟨digit, count + 1, rfl, least, most, word, by omega⟩
    · rw [test, bind_some, if_neg Bool.false_ne_true]
      exact ⟨qhat, 0, rfl, enough, near, small, rfl⟩

end

end

end Estimate

/-! ### One digit -/

section Digit

variable {qhat j : Nat} {vn un : Limbs}

theorem I128.sub_eq {a b : Int} (low : -(2 * radix : Nat) ≤ a - b) (high : a - b < (2 * radix : Nat)) :
    I128.sub a b = some (a - b) := by
  have wide : ((2 * radix : Nat) : Int) < i128Size := by decide
  exact if_pos ⟨by omega, by omega⟩

theorem limb_sub {a b c : Nat} (limb : a < radix) (bit : b ≤ 1) (word : c < radix) {t : Int} (difference : t = a - b - c) :
    (t % radix).toNat < radix ∧ (t % radix).toNat + b + c = a + radix * (if t < 0 then 1 else 0) := by
  have positive := radix_pos
  split
  · have wrapped : t % radix = t + radix := by
      rw [← Int.add_emod_right]
      exact Int.emod_eq_of_lt (by omega) (by omega)
    rw [wrapped]
    omega
  · rw [Int.emod_eq_of_lt (by omega) (by omega)]
    omega

theorem mulSub_done (estimate : qhat < radix) (divisor : Words vn) (words : Words un) (k : Nat) :
    ∃ d, mulSub qhat vn j un k = some d ∧ d.borrow ≤ 1 ∧ d.carry < radix ∧ Kept un d.un j k ∧
      value radix (fun t => d.un (j + t)) k + qhat * value radix vn k =
        value radix (fun t => un (j + t)) k + radix ^ k * (d.carry + d.borrow) := by
  induction k with
  | zero => exact ⟨_, rfl, Nat.zero_le 1, radix_pos, ⟨words, fun _ _ => rfl⟩, by simp⟩
  | succ k ih =>
    obtain ⟨d, run, bit, carried, kept, sum⟩ := ih
    have fits := mul_add_add_lt estimate (divisor k) carried radix_pos
    obtain ⟨p, product⟩ : ∃ p, qhat * vn k + d.carry = p := ⟨_, rfl⟩
    obtain ⟨t, difference⟩ : ∃ t : Int, t = d.un (j + k) - d.borrow - (p % radix : Nat) := ⟨_, rfl⟩
    have limb := kept.words (j + k)
    have low := mod_word p
    have step : subStep qhat vn j k d =
        some ⟨update d.un (j + k) (t % radix).toNat, if t < 0 then 1 else 0, p / radix⟩ := by
      unfold subStep
      simp only [bind_eq_bind]
      rw [U128.mul_eq (by omega), bind_some, U128.add_eq (by omega), bind_some, product, Nat.add_comm k,
        I128.sub_eq (by omega) (by omega), bind_some, I128.sub_eq (by omega) (by omega), bind_some, ← difference]
    obtain ⟨word, parts⟩ := limb_sub limb bit low difference
    refine ⟨_, by rw [mulSub, run, bind_some, step], ?_, ?_, kept.extend word, ?_⟩
    · dsimp only
      split <;> omega
    · rw [Nat.div_lt_iff_lt_mul radix_pos, radix_sq]
      omega
    dsimp only
    have carry := Nat.div_add_mod p radix
    rw [kept.rest (j + k) (.inr le_rfl)] at parts
    rw [value_extend, value_succ, value_succ, pow_succ]
    generalize (t % radix).toNat = x at parts
    generalize (if t < 0 then 1 else 0 : Nat) = b at parts
    calc value radix (fun t' => d.un (j + t')) k + x * radix ^ k + qhat * (value radix vn k + vn k * radix ^ k)
        = (value radix (fun t' => d.un (j + t')) k + qhat * value radix vn k) + (x + qhat * vn k) * radix ^ k := by ring
      _ = value radix (fun t' => un (j + t')) k + (x + d.borrow + (qhat * vn k + d.carry)) * radix ^ k := by
        rw [sum]
        ring
      _ = value radix (fun t' => un (j + t')) k + (x + d.borrow + p % radix + radix * (p / radix)) * radix ^ k := by
        rw [product, Nat.add_assoc (x + d.borrow), Nat.add_comm (p % radix), carry]
      _ = value radix (fun t' => un (j + t')) k + un (j + k) * radix ^ k + radix ^ k * radix * (p / radix + b) := by
        rw [parts]
        ring

theorem addBack_done (divisor : Words vn) (words : Words un) (k : Nat) :
    ∃ un' c, addBack vn j un k = some (un', c) ∧ c ≤ 1 ∧ Kept un un' j k ∧
      value radix (fun t => un' (j + t)) k + radix ^ k * c = value radix (fun t => un (j + t)) k + value radix vn k := by
  induction k with
  | zero => exact ⟨un, 0, rfl, Nat.zero_le 1, ⟨words, fun _ _ => rfl⟩, by simp⟩
  | succ k ih =>
    obtain ⟨un', c, run, bit, kept, sum⟩ := ih
    have wide : radix + radix + 1 < u128Size := by decide
    have first := kept.words (j + k)
    have second := divisor k
    obtain ⟨t, total⟩ : ∃ t, un' (j + k) + vn k + c = t := ⟨_, rfl⟩
    have step : addStep vn j k (un', c) = some (update un' (j + k) (t % radix), t / radix) := by
      unfold addStep
      simp only [bind_eq_bind, Nat.add_comm k]
      rw [U128.add_eq (by omega), bind_some, U128.add_eq (by omega), bind_some, total]
    refine ⟨_, _, by rw [addBack, run, bind_some, step], ?_, kept.extend (mod_word t), ?_⟩
    · exact Nat.lt_succ_iff.mp ((Nat.div_lt_iff_lt_mul radix_pos).mpr (by omega))
    rw [value_extend, carry_out, value_succ, value_succ, ← total, kept.rest (j + k) (.inr le_rfl)]
    calc value radix (fun t' => un' (j + t')) k + radix ^ k * (un (j + k) + vn k + c)
        = (value radix (fun t' => un' (j + t')) k + radix ^ k * c) + radix ^ k * (un (j + k) + vn k) := by ring
      _ = value radix (fun t' => un (j + t')) k + un (j + k) * radix ^ k + (value radix vn k + vn k * radix ^ k) := by
        rw [sum]
        ring

def window (un : Limbs) (n j : Nat) : Nat := value radix (fun t => un (j + t)) (n + 1)

theorem window_eq (un : Limbs) (n j : Nat) :
    window un n j = value radix (fun t => un (j + t)) n + un (j + n) * radix ^ n := value_succ _ _ n

variable {p : Nat}

/-- A window below the divisor times the radix, and a divisor whose leading limb has its high bit. -/
structure Ready (vn un : Limbs) (p j : Nat) : Prop where
  divisor : Words vn
  words : Words un
  normal : radix ≤ 2 * vn (p + 1)
  small : window un (p + 2) j < value radix vn (p + 2) * radix

theorem Ready.leading (ready : Ready vn un p j) :
    Leading (window un (p + 2) j) (value radix vn (p + 2)) (un (j + (p + 2)) * radix + un (j + (p + 1))) (vn (p + 1)) (vn p)
      (un (j + p)) (radix ^ p) := by
  have place : 0 < radix ^ p := Nat.pow_pos radix_pos
  have rest : value radix (fun t => un (j + t)) p < radix ^ p := value_lt fun i _ => ready.words (j + i)
  have rest' : value radix vn p < radix ^ p := value_lt fun i _ => ready.divisor i
  have dividend : window un (p + 2) j = ((un (j + (p + 2)) * radix + un (j + (p + 1))) * radix + un (j + p)) * radix ^ p +
      value radix (fun t => un (j + t)) p := by
    rw [window, value_succ, value_succ, value_succ, pow_succ, pow_succ]
    ring
  have divisor : value radix vn (p + 2) = (vn (p + 1) * radix + vn p) * radix ^ p + value radix vn p := by
    rw [value_succ, value_succ, pow_succ]
    ring
  have some_top := top_pos ready.normal
  have positive : 0 < value radix vn (p + 2) := by
    rw [divisor]
    exact Nat.add_pos_left (Nat.mul_pos (Nat.add_pos_left (Nat.mul_pos some_top radix_pos) _) place) _
  refine ⟨ready.normal, ready.divisor _, ready.divisor _, ready.words _, ?_, ?_, ?_, ?_, positive⟩
  · rw [dividend, Nat.succ_mul]
    omega
  · rw [divisor, Nat.succ_mul]
    omega
  · have low := ready.small
    have next := ready.divisor p
    by_contra large
    have much : (vn (p + 1) + 1) * radix * radix * radix ^ p ≤ window un (p + 2) j := by
      rw [dividend]
      refine le_trans (Nat.mul_le_mul_right _ ?_) (Nat.le_add_right _ _)
      exact le_trans (Nat.mul_le_mul_right radix (not_lt.mp large)) (Nat.le_add_right _ _)
    have little : value radix vn (p + 2) ≤ (vn (p + 1) + 1) * radix * radix ^ p := by
      rw [divisor]
      calc (vn (p + 1) * radix + vn p) * radix ^ p + value radix vn p
          ≤ (vn (p + 1) * radix + vn p + 1) * radix ^ p := by rw [Nat.succ_mul]; omega
        _ ≤ (vn (p + 1) + 1) * radix * radix ^ p := Nat.mul_le_mul_right _ (by rw [Nat.succ_mul]; omega)
    have scaled := Nat.mul_le_mul_right radix little
    rw [show (vn (p + 1) + 1) * radix * radix ^ p * radix = (vn (p + 1) + 1) * radix * radix * radix ^ p by ring] at scaled
    omega
  · exact Nat.div_lt_of_lt_mul ready.small

theorem Ready.estimate_done (ready : Ready vn un p j) :
    ∃ num digit count, U128.join (un (j + (p + 2))) (un (j + (p + 1))) = some num ∧
      correct (vn (p + 1)) (vn p) (un (j + p)) (num / vn (p + 1) + 1) (num / vn (p + 1)) (num % vn (p + 1)) =
        some (digit, count) ∧ digit < radix ∧ window un (p + 2) j / value radix vn (p + 2) ≤ digit ∧
      digit ≤ window un (p + 2) j / value radix vn (p + 2) + 1 ∧
      digit + count ≤ window un (p + 2) j / value radix vn (p + 2) + 2 := by
  have leading := ready.leading
  have place : 0 < radix ^ (p + 1) := Nat.pow_pos radix_pos
  obtain ⟨num, joined⟩ : ∃ num, un (j + (p + 2)) * radix + un (j + (p + 1)) = num := ⟨_, rfl⟩
  rw [joined] at leading
  have some_top := top_pos leading.normal
  have numerator : num = window un (p + 2) j / radix ^ (p + 1) := by
    have rest : value radix (fun t => un (j + t)) (p + 1) < radix ^ (p + 1) := value_lt fun i _ => ready.words (j + i)
    have dividend : window un (p + 2) j = value radix (fun t => un (j + t)) (p + 1) + radix ^ (p + 1) * num := by
      rw [window, value_succ, value_succ, ← joined, pow_succ radix (p + 1)]
      ring
    rw [dividend, Nat.add_mul_div_left _ _ place, Nat.div_eq_of_lt rest, Nat.zero_add]
  have low : vn (p + 1) * radix ^ (p + 1) ≤ value radix vn (p + 2) := le_value radix vn (Nat.lt_succ_self (p + 1))
  have high : value radix vn (p + 2) < (vn (p + 1) + 1) * radix ^ (p + 1) := by
    have rest : value radix vn (p + 1) < radix ^ (p + 1) := value_lt fun i _ => ready.divisor i
    rw [value_succ, Nat.succ_mul]
    omega
  have few : num / vn (p + 1) ≤ radix + 2 := by
    have normal := leading.normal
    refine (Nat.div_lt_of_lt_mul (leading.bounded.trans_le ?_)).le
    rw [Nat.succ_mul, Nat.mul_add]
    omega
  have enough := le_estimate numerator low some_top place
  have near := estimate_le numerator high leading.normal few leading.positive
  have split : num / vn (p + 1) * vn (p + 1) + num % vn (p + 1) = num := by
    rw [Nat.mul_comm]
    exact Nat.div_add_mod num _
  obtain ⟨digit, count, run, least, most, word, sum⟩ := leading.correct_done split
    ((Nat.mod_lt num some_top).trans leading.word) enough
    (lt_of_lt_of_le (Nat.lt_succ_self (num / vn (p + 1))) (Nat.le_add_right _ _))
  refine ⟨num, digit, count, ?_, run, word, least, most, ?_⟩
  · rw [join_eq (ready.words _) (ready.words _), joined]
  · rw [sum]
    exact near

structure DigitDone (vn un : Limbs) (p j : Nat) (d : Digit) : Prop where
  run : digitAt vn (p + 2) j un = some d
  digit : d.digit = window un (p + 2) j / value radix vn (p + 2)
  corrections : d.corrections ≤ 2
  kept : Kept un d.un j (p + 3)
  left : window d.un (p + 2) j = window un (p + 2) j % value radix vn (p + 2)

section Subtracted

variable {W V A L P u k x estimate : Nat}

theorem digit_kept (sum : A + estimate * V = L + P * k) (whole : W = L + u * P) (limb : x + k = u) (least : W / V ≤ estimate)
    (positive : 0 < V) : estimate = W / V ∧ A + x * P = W % V := by
  have total : A + x * P + estimate * V = W := by
    calc A + x * P + estimate * V = A + estimate * V + x * P := by ring
      _ = L + (x + k) * P := by rw [sum]; ring
      _ = W := by rw [limb, whole]
  have exact : estimate = W / V := le_antisymm ((Nat.le_div_iff_mul_le positive).mpr (by omega)) least
  have split := Nat.mod_add_div W V
  rw [exact, Nat.mul_comm (W / V)] at total
  exact ⟨exact, by omega⟩

theorem digit_restored {R B c : Nat} (sum : A + estimate * V = L + P * k) (whole : W = L + u * P) (limb : x + k = u + R)
    (word : x < R) (low : A < P) (most : estimate ≤ W / V + 1) (bounded : V < P) (positive : 0 < V) (low' : B < P)
    (back : B + P * c = A + V) : estimate = W / V + 1 ∧ x + c = R ∧ B = W % V := by
  have total : A + x * P + estimate * V = W + R * P := by
    calc A + x * P + estimate * V = A + estimate * V + x * P := by ring
      _ = L + (x + k) * P := by rw [sum]; ring
      _ = W + R * P := by rw [limb, whole]; ring
  have less : A + x * P < R * P := by
    calc A + x * P < (x + 1) * P := by rw [Nat.succ_mul]; omega
      _ ≤ R * P := Nat.mul_le_mul_right P word
  have above : W / V < estimate := (Nat.div_lt_iff_lt_mul positive).mpr (by omega)
  have exact : estimate = W / V + 1 := le_antisymm most above
  have split := Nat.mod_add_div W V
  have short := Nat.mod_lt W positive
  have left : B + (x + c) * P = W % V + R * P := by
    rw [exact, Nat.succ_mul, Nat.mul_comm (W / V)] at total
    rw [Nat.add_mul, Nat.mul_comm c]
    omega
  have top : x + c = R := by
    refine le_antisymm (Nat.lt_succ_iff.mp ?_) (Nat.lt_succ_iff.mp ?_)
    all_goals
      refine lt_of_mul_lt_mul_right ?_ (Nat.zero_le P)
      rw [Nat.succ_mul]
      omega
  rw [top] at left
  exact ⟨exact, top, by omega⟩

end Subtracted

theorem Ready.digit_done (ready : Ready vn un p j) : ∃ d, DigitDone vn un p j d := by
  obtain ⟨num, qhat, count, joined, corrected, word, least, most, few⟩ := ready.estimate_done
  obtain ⟨d, run, bit, carried, kept, sum⟩ := mulSub_done (j := j) word ready.divisor ready.words (p + 2)
  have positive := ready.leading.positive
  have whole := window_eq un (p + 2) j
  have limb := ready.words (j + (p + 2))
  have same : d.un (j + (p + 2)) = un (j + (p + 2)) := kept.rest _ (.inr le_rfl)
  obtain ⟨t, difference⟩ : ∃ t : Int, t = un (j + (p + 2)) - d.borrow - d.carry := ⟨_, rfl⟩
  obtain ⟨wordLeft, parts⟩ := limb_sub limb bit carried difference
  have steps : digitAt vn (p + 2) j un = if t < 0 then (U128.sub qhat 1).bind fun qhat =>
        (addBack vn j (update d.un (j + (p + 2)) (t % radix).toNat) (p + 2)).bind fun back =>
          some ⟨update back.1 (j + (p + 2)) ((back.1 (j + (p + 2)) + back.2 % radix) % radix), qhat, count + 1⟩
      else some ⟨update d.un (j + (p + 2)) (t % radix).toNat, qhat, count⟩ := by
    unfold digitAt
    rw [show j + (p + 2) - 1 = j + (p + 1) from rfl, show j + (p + 2) - 2 = j + p from rfl, show p + 2 - 1 = p + 1 from rfl,
      show p + 2 - 2 = p from rfl, joined]
    simp only [bind_eq_bind, bind_some, corrected, run, same]
    rw [I128.sub_eq (by omega) (by omega), bind_some, I128.sub_eq (by omega) (by omega), bind_some, ← difference]
  by_cases negative : t < 0
  · obtain ⟨un', c, back, bit', ⟨words', rest'⟩, sum'⟩ := addBack_done ready.divisor (kept.extend wordLeft).words (p + 2)
    have below : value radix (fun i => update d.un (j + (p + 2)) (t % radix).toNat (j + i)) (p + 2) =
        value radix (fun i => d.un (j + i)) (p + 2) := value_congr fun i less => update_of_ne (by omega) _ _
    rw [below] at sum'
    rw [if_pos negative, Nat.mul_one, Nat.add_assoc, Nat.add_comm d.borrow] at parts
    obtain ⟨exact, top, left⟩ := digit_restored sum whole parts wordLeft (value_lt fun i _ => kept.words (j + i)) most
      (value_lt fun i _ => ready.divisor i) positive (value_lt fun i _ => words' (j + i)) sum'
    have stays : un' (j + (p + 2)) = (t % radix).toNat := by rw [rest' _ (.inr le_rfl), update_self]
    have wrapped : (un' (j + (p + 2)) + c % radix) % radix = 0 := by
      rw [stays, Nat.mod_eq_of_lt (lt_of_le_of_lt bit' (by decide)), top, Nat.mod_self]
    refine ⟨⟨update un' (j + (p + 2)) 0, window un (p + 2) j / value radix vn (p + 2), count + 1⟩, ?_, rfl, ?_,
      ⟨words'.update radix_pos, fun x outside => ?_⟩, ?_⟩
    · rw [steps, if_pos negative, exact, U128.sub, if_pos (Nat.le_add_left 1 _), back, Nat.add_sub_cancel]
      simp only [bind_some, wrapped]
    · dsimp only
      omega
    · dsimp only
      rw [update_of_ne (by omega), rest' x (by omega), (kept.extend wordLeft).rest x outside]
    · dsimp only
      rw [window, value_extend, Nat.zero_mul, Nat.add_zero, left]
  · rw [if_neg negative, Nat.mul_zero, Nat.add_zero, Nat.add_assoc, Nat.add_comm d.borrow] at parts
    obtain ⟨exact, left⟩ := digit_kept sum whole parts least positive
    refine ⟨⟨update d.un (j + (p + 2)) (t % radix).toNat, qhat, count⟩, by rw [steps, if_neg negative], exact, ?_,
      kept.extend wordLeft, ?_⟩
    · dsimp only
      omega
    · dsimp only
      rw [window, value_extend, left]

/-- What the digits below `J` leave of the dividend: the quotient's limbs and a rest below the divisor. -/
structure DigitsDone (vn un q : Limbs) (p J most : Nat) (un' q' : Limbs) (most' : Nat) : Prop where
  run : digits vn (p + 2) J un q most = some (un', q', most')
  corrections : most' ≤ max most 2
  words : Words un' ∧ Words q'
  rest : ∀ x, J ≤ x → q' x = q x
  sum : value radix un (J + (p + 2)) = value radix vn (p + 2) * value radix q' J + value radix un' (p + 2)
  less : value radix un' (p + 2) < value radix vn (p + 2)
  clear : un' (p + 2) = 0

theorem digits_done {q : Limbs} (J : Nat) (most : Nat) (divisor : Words vn) (words : Words un) (quotient : Words q)
    (normal : radix ≤ 2 * vn (p + 1))
    (less : value radix (fun t => un (J + t)) (p + 2) < value radix vn (p + 2)) (clear : un (J + (p + 2)) = 0) :
    ∃ un' q' most', DigitsDone vn un q p J most un' q' most' := by
  induction J generalizing un q most with
  | zero =>
    simp only [Nat.zero_add] at less clear
    exact ⟨un, q, most, rfl, le_max_left _ _, ⟨words, quotient⟩, fun _ _ => rfl, by simp, less, clear⟩
  | succ j ih =>
    have shift : (fun t => un (j + (1 + t))) = fun t => un (j + 1 + t) := by
      funext t
      rw [Nat.add_assoc]
    have lead : window un (p + 2) j = un j + radix * value radix (fun t => un (j + 1 + t)) (p + 2) := by
      rw [window, Nat.add_comm (p + 2) 1, value_add, shift, value_succ, value_zero, pow_zero, pow_one]
      simp
    have ready : Ready vn un p j := by
      refine ⟨divisor, words, normal, ?_⟩
      have limb := words j
      have scaled := Nat.mul_le_mul_left radix (Nat.succ_le_of_lt less)
      rw [Nat.mul_succ] at scaled
      rw [lead, Nat.mul_comm (value radix vn (p + 2))]
      omega
    obtain ⟨d, run, digit, few, ⟨words', rest⟩, left⟩ := ready.digit_done
    have positive := ready.leading.positive
    have short := Nat.mod_lt (window un (p + 2) j) positive
    have bounded : value radix vn (p + 2) < radix ^ (p + 2) := value_lt fun i _ => divisor i
    have cleared : d.un (j + (p + 2)) = 0 := by
      by_contra some_limb
      have large := Nat.mul_le_mul_right (radix ^ (p + 2)) (Nat.one_le_iff_ne_zero.mpr some_limb)
      rw [Nat.one_mul] at large
      rw [window_eq] at left
      omega
    have remainder : value radix (fun t => d.un (j + t)) (p + 2) = window un (p + 2) j % value radix vn (p + 2) := by
      rw [← left, window_eq, cleared, Nat.zero_mul]
      rfl
    have word : d.digit < radix := by
      rw [digit]
      exact ready.leading.digit
    obtain ⟨un', q', most', run', few', ⟨words'', quotient'⟩, rest', sum', less', clear'⟩ :=
      ih (max most d.corrections) words' (quotient.update (mod_word d.digit) : Words (update q j (d.digit % radix)))
        (by rw [remainder]; exact short) cleared
    refine ⟨un', q', most', ?_, by omega, ⟨words'', quotient'⟩, fun x above => ?_, ?_, less', clear'⟩
    · rw [digits, run]
      exact run'
    · rw [rest' x (by omega), update_of_ne (by omega)]
    have here : q' j = window un (p + 2) j / value radix vn (p + 2) := by
      rw [rest' j le_rfl, update_self, Nat.mod_eq_of_lt word, digit]
    have split := Nat.mod_add_div (window un (p + 2) j) (value radix vn (p + 2))
    have low : value radix d.un j = value radix un j := value_congr fun i lower => rest i (.inl lower)
    rw [value_add, low, remainder] at sum'
    rw [show j + 1 + (p + 2) = j + (p + 2 + 1) by omega, value_add, value_succ radix q' j, here]
    change value radix un j + radix ^ j * window un (p + 2) j = _
    calc value radix un j + radix ^ j * window un (p + 2) j
        = value radix un j + radix ^ j * (window un (p + 2) j % value radix vn (p + 2)) +
          radix ^ j * (value radix vn (p + 2) * (window un (p + 2) j / value radix vn (p + 2))) := by
          rw [Nat.add_assoc, ← Nat.mul_add, split]
      _ = value radix vn (p + 2) * (value radix q' j + window un (p + 2) j / value radix vn (p + 2) * radix ^ j) +
          value radix un' (p + 2) := by
        rw [sum']
        ring

end Digit

/-! ### The whole division -/

section Whole

variable {u v un : Limbs} {s n p m : Nat}

theorem shiftDown_eq (words : Words un) (small : s ≤ 63) {k : Nat} (inside : k < n) :
    shiftDown un n s k = un k / 2 ^ s + un (k + 1) % 2 ^ s * 2 ^ (64 - s) := by
  rw [shiftDown, if_pos inside]
  split
  · rename_i none
    rw [none, pow_zero, Nat.mod_one, Nat.div_one, Nat.zero_mul]
    rfl
  have low := div_pow_lt (words k) (show s + (64 - s) = 64 by omega)
  have high : un (k + 1) <<< (64 - s) % radix = (un (k + 1) % 2 ^ s) <<< (64 - s) := by
    rw [Nat.shiftLeft_eq, Nat.shiftLeft_eq, radix_split small, Nat.mul_comm (2 ^ (64 - s)) (2 ^ s), Nat.mul_mod_mul_right]
  rw [high, Nat.shiftRight_eq_div_pow, Nat.or_comm, ← Nat.shiftLeft_add_eq_or_of_lt low, Nat.shiftLeft_eq, Nat.add_comm]

theorem shiftDown_word (words : Words un) (small : s ≤ 63) (k : Nat) : shiftDown un n s k < radix := by
  by_cases inside : k < n
  · have sum : s + (64 - s) = 64 := by omega
    have high := Nat.mod_lt (un (k + 1)) (show 0 < 2 ^ s by positivity)
    rw [shiftDown_eq words small inside, Nat.add_comm]
    exact mul_pow_add_lt high (div_pow_lt (words k) sum) sum
  · rw [shiftDown, if_neg inside]
    exact radix_pos

theorem value_shiftDown (words : Words un) (small : s ≤ 63) {k : Nat} (inside : k ≤ n) :
    2 ^ s * value radix (shiftDown un n s) k + un 0 % 2 ^ s = value radix un k + un k % 2 ^ s * radix ^ k := by
  induction k with
  | zero => simp
  | succ k ih =>
    have parts := Nat.div_add_mod (un k) (2 ^ s)
    rw [value_succ, value_succ, shiftDown_eq words small (Nat.lt_of_succ_le inside)]
    calc 2 ^ s * (value radix (shiftDown un n s) k +
            (un k / 2 ^ s + un (k + 1) % 2 ^ s * 2 ^ (64 - s)) * radix ^ k) + un 0 % 2 ^ s
        = (2 ^ s * value radix (shiftDown un n s) k + un 0 % 2 ^ s) +
            (2 ^ s * (un k / 2 ^ s) + un (k + 1) % 2 ^ s * (2 ^ (64 - s) * 2 ^ s)) * radix ^ k := by ring
      _ = value radix un k + (2 ^ s * (un k / 2 ^ s) + un k % 2 ^ s) * radix ^ k +
            un (k + 1) % 2 ^ s * (radix ^ k * radix) := by
          rw [ih (by omega), ← radix_split small]
          ring
      _ = value radix un k + un k * radix ^ k + un (k + 1) % 2 ^ s * radix ^ (k + 1) := by rw [parts, pow_succ]

theorem normalDivisor_words (words : Words v) (small : s ≤ 63) : Words (normalDivisor v n s) := by
  intro i
  unfold normalDivisor
  split
  · exact shiftUp_word words small i
  · exact radix_pos

theorem value_normalDivisor (words : Words v) (small : s ≤ 63) (fits : v (p + 1) * 2 ^ s < radix) :
    value radix (normalDivisor v (p + 2) s) (p + 2) = 2 ^ s * value radix v (p + 2) := by
  have same : value radix (normalDivisor v (p + 2) s) (p + 2) = value radix (shiftUp v s) (p + 2) :=
    value_congr fun i less => if_pos less
  have nothing : v (p + 1) / 2 ^ (64 - s) = 0 := by
    refine Nat.div_eq_of_lt (lt_of_mul_lt_mul_right ?_ (Nat.zero_le (2 ^ s)))
    rwa [← radix_split small]
  have shifted := value_shiftUp words small (p + 1)
  rwa [nothing, Nat.mul_zero, Nat.add_zero, ← same] at shifted

theorem normalDivisor_normal (words : Words v) (small : s ≤ 63) (fits : v (p + 1) * 2 ^ s < radix)
    (high : 2 ^ 63 ≤ v (p + 1) * 2 ^ s) : radix ≤ 2 * normalDivisor v (p + 2) s (p + 1) := by
  rw [normalDivisor, if_pos (Nat.lt_succ_self (p + 1)), shiftUp_succ words small, Nat.mod_eq_of_lt fits]
  calc radix = 2 * 2 ^ 63 := by decide
    _ ≤ 2 * (v (p + 1) * 2 ^ s) := Nat.mul_le_mul_left 2 high
    _ ≤ 2 * (v (p + 1) * 2 ^ s + v p / 2 ^ (64 - s)) := Nat.mul_le_mul_left 2 (Nat.le_add_right _ _)

theorem normalDividend_top (words : Words u) (small : s ≤ 63) :
    normalDividend u (m + 1) s (m + 1) = u m / 2 ^ (64 - s) ∧ u m / 2 ^ (64 - s) < 2 ^ s := by
  refine ⟨?_, div_pow_lt (words m) (by omega)⟩
  rw [normalDividend, if_neg (lt_irrefl _), if_pos rfl, Nat.add_sub_cancel]
  split
  · rename_i none
    rw [none]
    exact (Nat.div_eq_of_lt (words m)).symm
  · exact Nat.shiftRight_eq_div_pow _ _

theorem normalDividend_words (words : Words u) (small : s ≤ 63) : Words (normalDividend u (m + 1) s) := by
  intro i
  obtain ⟨top, low⟩ := normalDividend_top (m := m) words small
  by_cases here : i = m + 1
  · rw [here, top]
    exact low.trans_le (Nat.pow_le_pow_right (by norm_num) (by omega))
  unfold normalDividend
  split
  · exact shiftUp_word words small i
  · exact radix_pos

theorem value_normalDividend (words : Words u) (small : s ≤ 63) :
    value radix (normalDividend u (m + 1) s) (m + 2) = 2 ^ s * value radix u (m + 1) := by
  have same : value radix (normalDividend u (m + 1) s) (m + 1) = value radix (shiftUp u s) (m + 1) :=
    value_congr fun i less => if_pos less
  rw [value_succ, same, (normalDividend_top words small).1, Nat.mul_comm (u m / 2 ^ (64 - s))]
  exact value_shiftUp words small m

structure Divided (u v : Limbs) (out : Quotient) : Prop where
  run : divmod512By256 u v = some out
  sum : value radix out.q 8 * value radix v 4 + value radix out.r 4 = value radix u 8
  less : value radix out.r 4 < value radix v 4
  words : Words out.q ∧ Words out.r
  corrections : out.corrections ≤ 2

theorem divided_short (dividend : Words u) (some_limb : used v 4 ≠ 0) (short : used u 8 < used v 4) :
    ∃ out, Divided u v out := by
  have most := used_le v 4
  have same : value radix (fun i => if i < 4 then u i else 0) 4 = value radix u 8 := by
    rw [value_congr fun i less => if_pos less, value_used u 8]
    exact value_of_clear (by omega) fun i less above => used_clear u 8 i (by omega) above
  refine ⟨⟨Limbs.zero, fun i => if i < 4 then u i else 0, 0⟩, ?_, ?_, ?_, ⟨zero_words, fun i => ?_⟩, Nat.zero_le _⟩
  · rw [divmod512By256]
    simp only [if_neg some_limb, if_pos short]
  · rw [same, value_eq_zero (f := Limbs.zero) fun _ _ => rfl, Nat.zero_mul, Nat.zero_add]
  · rw [same, value_used u 8]
    have low : value radix u (used u 8) < radix ^ used u 8 := value_lt fun i _ => dividend i
    have lead := used_top v 4 some_limb
    calc value radix u (used u 8) < radix ^ used u 8 := low
      _ ≤ radix ^ (used v 4 - 1) := Nat.pow_le_pow_right radix_pos (by omega)
      _ ≤ v (used v 4 - 1) * radix ^ (used v 4 - 1) := Nat.le_mul_of_pos_left _ (Nat.pos_of_ne_zero lead)
      _ ≤ value radix v 4 := le_value radix v (by omega)
  · dsimp only
    split
    · exact dividend i
    · exact radix_pos

theorem divided_by_limb (dividend : Words u) (divisor : Words v) (one : used v 4 = 1) (long : 1 ≤ used u 8) :
    ∃ out, Divided u v out := by
  have lead := used_top v 4 (by omega)
  rw [one] at lead
  have positive : 0 < v 0 := Nat.pos_of_ne_zero lead
  have whole : value radix v 4 = v 0 := by
    rw [value_used, one, value_succ, value_zero, pow_zero, Nat.mul_one, Nat.zero_add]
  obtain ⟨q, rem, run, less, words, rest, sum⟩ := shortDivide_done dividend positive (divisor 0) (used u 8)
    positive zero_words
  have word : rem < radix := less.trans (divisor 0)
  have remainder : value radix (fun i => if i = 0 then rem % radix else 0) 4 = rem := by
    rw [value_of_clear (k := 1) (by omega) fun i _ above => if_neg (by omega), value_succ, value_zero, if_pos rfl, pow_zero,
      Nat.mul_one, Nat.zero_add, Nat.mod_eq_of_lt word]
  have quotient : value radix q 8 = value radix q (used u 8) := value_of_clear (used_le u 8) fun i _ above => rest i above
  refine ⟨⟨q, fun i => if i = 0 then rem % radix else 0, 0⟩, ?_, ?_, ?_, ⟨words, fun i => ?_⟩, Nat.zero_le _⟩
  · rw [divmod512By256]
    simp only [one, if_neg Nat.one_ne_zero, if_neg (not_lt.mpr long), if_true, run, bind_eq_bind, bind_some]
  · rw [remainder, quotient, whole, value_used u 8, Nat.mul_comm]
    rw [Nat.zero_mul, Nat.zero_add] at sum
    exact sum.symm
  · rw [remainder, whole]
    exact less
  · dsimp only
    split
    · exact mod_word rem
    · exact radix_pos

theorem divided_by_limbs (dividend : Words u) (divisor : Words v) (many : used v 4 = p + 2) (long : used u 8 = m + 1)
    (enough : p + 2 ≤ m + 1) : ∃ out, Divided u v out := by
  have lead := used_top v 4 (by omega)
  rw [many, show p + 2 - 1 = p + 1 from rfl] at lead
  have most := used_le v 4
  have most' := used_le u 8
  obtain ⟨small, high, fits⟩ := leadingZeros_spec lead (divisor (p + 1))
  obtain ⟨s, zeros⟩ : ∃ s, leadingZeros (v (p + 1)) = s := ⟨_, rfl⟩
  rw [zeros] at small high fits
  obtain ⟨J, length⟩ : ∃ J, m + 2 = J + (p + 2) := ⟨m + 2 - (p + 2), by omega⟩
  have normal := normalDivisor_normal divisor small fits high
  have scaled := value_normalDivisor divisor small fits
  have words := normalDividend_words (m := m) dividend small
  obtain ⟨top, low⟩ := normalDividend_top (m := m) dividend small
  have less : value radix (fun t => normalDividend u (m + 1) s (J + t)) (p + 2) <
      value radix (normalDivisor v (p + 2) s) (p + 2) := by
    have rest : value radix (fun t => normalDividend u (m + 1) s (J + t)) (p + 1) < radix ^ (p + 1) :=
      value_lt fun i _ => words (J + i)
    have few : u m / 2 ^ (64 - s) + 1 ≤ normalDivisor v (p + 2) s (p + 1) := by
      have half : 2 ^ s ≤ 2 ^ 63 := Nat.pow_le_pow_right (by norm_num) small
      have wide : radix = 2 * 2 ^ 63 := by decide
      omega
    rw [value_succ, show J + (p + 1) = m + 1 by omega, top]
    calc value radix (fun t => normalDividend u (m + 1) s (J + t)) (p + 1) + u m / 2 ^ (64 - s) * radix ^ (p + 1)
        < (u m / 2 ^ (64 - s) + 1) * radix ^ (p + 1) := by
          rw [Nat.succ_mul, Nat.add_comm]
          exact Nat.add_lt_add_left rest _
      _ ≤ normalDivisor v (p + 2) s (p + 1) * radix ^ (p + 1) := Nat.mul_le_mul_right _ few
      _ ≤ value radix (normalDivisor v (p + 2) s) (p + 2) := le_value radix _ (Nat.lt_succ_self (p + 1))
  have clear : normalDividend u (m + 1) s (J + (p + 2)) = 0 := by
    rw [← length, normalDividend, if_neg (by omega), if_neg (by omega)]
  obtain ⟨un, q, count, run, few, ⟨words', quotient⟩, rest, sum, short, clear'⟩ :=
    digits_done J 0 (normalDivisor_words (n := p + 2) divisor small) words zero_words normal less clear
  have down : 2 ^ s * value radix (shiftDown un (p + 2) s) (p + 2) + un 0 % 2 ^ s = value radix un (p + 2) := by
    simpa [clear'] using value_shiftDown words' small (le_refl (p + 2))
  rw [← length, value_normalDividend dividend small, scaled, ← down] at sum
  rw [← down, scaled] at short
  have power : 0 < 2 ^ s := by positivity
  -- the bits that fall off are a multiple of the shift, so there are none
  have even : un 0 % 2 ^ s = 0 := by
    have multiple : 2 ^ s ∣ un 0 % 2 ^ s := by
      refine (Nat.dvd_add_right (Dvd.intro _ rfl)).mp ((Nat.dvd_add_right (Dvd.intro (value radix v (p + 2) * value radix q J) ?_)).mp
        (Dvd.intro _ sum))
      ring
    exact Nat.eq_zero_of_dvd_of_lt multiple (Nat.mod_lt _ power)
  rw [even] at sum short
  have exact : value radix u (m + 1) = value radix v (p + 2) * value radix q J + value radix (shiftDown un (p + 2) s) (p + 2) := by
    refine Nat.eq_of_mul_eq_mul_left power ?_
    rw [sum]
    ring
  have remainder : value radix (shiftDown un (p + 2) s) 4 = value radix (shiftDown un (p + 2) s) (p + 2) :=
    value_of_clear (by omega) fun i _ above => if_neg (not_lt.mpr above)
  have whole : value radix q 8 = value radix q J := value_of_clear (by omega) fun i _ above => rest i above
  refine ⟨⟨q, shiftDown un (p + 2) s, count⟩, ?_, ?_, ?_, ⟨quotient, fun k => ?_⟩, few⟩
  · rw [divmod512By256]
    simp only [many, long, if_neg (Nat.succ_ne_zero (p + 1)), if_neg (not_lt.mpr enough),
      if_neg (show p + 2 ≠ 1 by omega), show p + 2 - 1 = p + 1 from rfl, zeros,
      show m + 1 - (p + 2) + 1 = J by omega, run, bind_eq_bind, bind_some]
  · rw [whole, remainder, value_used u 8, long, value_used v 4, many, exact, Nat.mul_comm (value radix q J)]
  · rw [remainder, value_used v 4, many]
    exact lt_of_mul_lt_mul_left (show 2 ^ s * _ < 2 ^ s * _ from short) (Nat.zero_le _)
  · exact shiftDown_word words' small k

theorem divided (u v : Limbs) (dividend : Words u) (divisor : Words v) (some_divisor : value radix v 4 ≠ 0) :
    ∃ out, Divided u v out := by
  have some_limb : used v 4 ≠ 0 := by
    intro none
    rw [value_used, none] at some_divisor
    exact some_divisor rfl
  rcases Nat.lt_or_ge (used u 8) (used v 4) with short | long
  · exact divided_short dividend some_limb short
  rcases (show used v 4 = 1 ∨ 2 ≤ used v 4 by omega) with one | more
  · exact divided_by_limb dividend divisor one (by omega)
  · obtain ⟨p, many⟩ := Nat.exists_eq_add_of_le' more
    obtain ⟨m, most⟩ : ∃ m, used u 8 = m + 1 := Nat.exists_eq_add_of_le' (by omega)
    exact divided_by_limbs dividend divisor many most (by omega)

end Whole

/-! ### Words of 256 bits -/

section Words256

variable {a b d : Nat}

theorem limbs_words (a : Nat) : Words (U256.limbs a) := fun _ => mod_word _

theorem value_limbs_word (word : a < u256Size) : value radix (U256.limbs a) 4 = a := by
  refine (value_limbs radix a 4).trans (Nat.mod_eq_of_lt ?_)
  rwa [show radix ^ 4 = u256Size by decide]

theorem high_limbs_clear (q : Limbs) : q 4 ||| q 5 ||| q 6 ||| q 7 = 0 ↔ value radix (fun i => q (4 + i)) 4 = 0 := by
  have terms : value radix (fun i => q (4 + i)) 4 = q 4 + q 5 * radix + q 6 * radix ^ 2 + q 7 * radix ^ 3 := by
    simp [value_succ]
  have positive := radix_pos
  rw [terms, Nat.or_eq_zero_iff, Nat.or_eq_zero_iff, Nat.or_eq_zero_iff]
  simp [positive.ne', and_assoc]

theorem mulDivRem_eq (first : a < u256Size) (second : b < u256Size) (divisor : d < u256Size) :
    mulDivRem a b d =
      some (if d = 0 then none else if a * b / d < u256Size then some (a * b / d, a * b % d) else none) := by
  unfold mulDivRem
  by_cases zero : d = 0
  · rw [if_pos zero, if_pos zero]
  rw [if_neg zero, if_neg zero]
  obtain ⟨r, product, words, sum⟩ := fullMulRows_done (limbs_words a) (limbs_words b) 4
  rw [value_limbs_word first, value_limbs_word second] at sum
  have some_divisor : value radix (U256.limbs d) 4 ≠ 0 := by rwa [value_limbs_word divisor]
  obtain ⟨out, run, exact, less, ⟨quotient, _⟩, _⟩ := divided r (U256.limbs d) words (limbs_words d) some_divisor
  rw [value_limbs_word divisor] at exact less
  rw [show (4 + 4 : Nat) = 8 from rfl] at sum
  rw [sum] at exact
  have positive : 0 < d := Nat.pos_of_ne_zero zero
  have div : a * b / d = value radix out.q 8 := by
    rw [← exact, Nat.mul_comm, Nat.mul_add_div positive, Nat.div_eq_of_lt less, Nat.add_zero]
  have mod : a * b % d = value radix out.r 4 := by rw [← exact, Nat.mul_comm, Nat.mul_add_mod, Nat.mod_eq_of_lt less]
  have halves : value radix out.q 8 = value radix out.q 4 + u256Size * value radix (fun i => out.q (4 + i)) 4 :=
    value_add radix out.q 4 4
  have low : value radix out.q 4 < u256Size := value_lt fun i _ => quotient i
  have top : out.q 4 ||| out.q 5 ||| out.q 6 ||| out.q 7 = 0 ↔ value radix (fun i => out.q (4 + i)) 4 = 0 :=
    high_limbs_clear out.q
  simp only [fullMul, product, run, bind_eq_bind, bind_some, div, mod]
  by_cases fits : value radix (fun i => out.q (4 + i)) 4 = 0
  · rw [fits, Nat.mul_zero, Nat.add_zero] at halves
    rw [if_neg (not_not.mpr (top.mpr fits)), halves, if_pos low]
  · have large := Nat.mul_le_mul_left u256Size (Nat.one_le_iff_ne_zero.mpr fits)
    rw [if_pos (mt top.mp fits), if_neg (by omega)]

theorem mulDivWords_eq (first : a < u256Size) (second : b < u256Size) (divisor : d < u256Size) :
    mulDivWords a b d = some (U256.mulDiv a b d) := by
  rw [mulDivWords, mulDivRem_eq first second divisor, U256.mulDiv]
  split_ifs <;> rfl

theorem mulDivRoundingUpWords_eq (first : a < u256Size) (second : b < u256Size) (divisor : d < u256Size) :
    mulDivRoundingUpWords a b d = some (U256.mulDivRoundingUp a b d) := by
  rw [mulDivRoundingUpWords, mulDivRem_eq first second divisor, U256.mulDivRoundingUp, U256.mulDiv]
  by_cases zero : d = 0 <;> by_cases fits : a * b / d < u256Size <;> simp only [zero, fits, if_true, if_false] <;> rfl

theorem mulDiv_floor (a b d : Nat) :
    U256.mulDiv a b d = if d = 0 ∨ u256Size ≤ a * b / d then none else some (a * b / d) := by
  unfold U256.mulDiv
  split_ifs <;> first | rfl | omega

theorem mulDivRoundingUp_ceil (a b d : Nat) :
    U256.mulDivRoundingUp a b d = if d = 0 ∨ u256Size ≤ a * b ⌈/⌉ d then none else some (a * b ⌈/⌉ d) := by
  by_cases zero : d = 0
  · rw [U256.mulDivRoundingUp, U256.mulDiv, if_pos zero, if_pos (.inl zero)]
    rfl
  have ceil := ceilDiv_eq_div (x := a * b) (Nat.pos_of_ne_zero zero)
  rcases Nat.lt_or_ge (a * b ⌈/⌉ d) u256Size with fits | large
  · rw [U256.mulDivRoundingUp_eq (Nat.pos_of_ne_zero zero) fits, if_neg (by omega)]
  rw [if_pos (.inr large), U256.mulDivRoundingUp, U256.mulDiv, if_neg zero]
  rw [ceil] at large
  by_cases low : a * b / d < u256Size
  · rw [if_pos low, bind_some]
    split_ifs at large ⊢
    · omega
    · rw [U256.checkedAdd, if_neg (by omega)]
  · rw [if_neg low]
    rfl

/-- Long division returns the quotient and the remainder with no overflow on the way, so the product over a divisor is
rounded exactly. -/
theorem mul_div_is_exact :
    (∀ u v : Limbs, Words u → Words v → value radix v 4 ≠ 0 →
      ∃ out, divmod512By256 u v = some out ∧
        value radix out.q 8 * value radix v 4 + value radix out.r 4 = value radix u 8 ∧
        value radix out.r 4 < value radix v 4 ∧ out.corrections ≤ 2) ∧
    ∀ a b d, a < u256Size → b < u256Size → d < u256Size →
      mulDivWords a b d = some (if d = 0 ∨ u256Size ≤ a * b / d then none else some (a * b / d)) ∧
      mulDivRoundingUpWords a b d =
        some (if d = 0 ∨ u256Size ≤ a * b ⌈/⌉ d then none else some (a * b ⌈/⌉ d)) := by
  refine ⟨fun u v dividend divisor some_divisor => ?_, fun a b d first second divisor => ⟨?_, ?_⟩⟩
  · obtain ⟨out, run, sum, less, _, few⟩ := divided u v dividend divisor some_divisor
    exact ⟨out, run, sum, less, few⟩
  · rw [mulDivWords_eq first second divisor, mulDiv_floor]
  · rw [mulDivRoundingUpWords_eq first second divisor, mulDivRoundingUp_ceil]

/-- The largest word times itself over itself: one digit is estimated two too high. -/
theorem mul_div_is_exact_at_the_top :
    (∃ out, divmod512By256 (U256.limbs (2 ^ 256 - 1)) (U256.limbs (2 ^ 128 + 1)) = some out ∧ out.corrections ≤ 2) ∧
    mulDivWords (2 ^ 256 - 1) (2 ^ 256 - 1) (2 ^ 256 - 1) = some (some (2 ^ 256 - 1)) := by
  obtain ⟨out, run, _, _, few⟩ := mul_div_is_exact.1 (U256.limbs (2 ^ 256 - 1)) (U256.limbs (2 ^ 128 + 1))
    (limbs_words _) (limbs_words _) (by rw [value_limbs_word (by decide)]; decide)
  have square := (mul_div_is_exact.2 (2 ^ 256 - 1) (2 ^ 256 - 1) (2 ^ 256 - 1) (by decide) (by decide) (by decide)).1
  refine ⟨⟨out, run, few⟩, ?_⟩
  rw [square]
  decide

end Words256

end TradingEngine.Amm
