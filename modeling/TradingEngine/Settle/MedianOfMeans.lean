import TradingEngine.Base.Ranks
import TradingEngine.Settle.Window

/-!
# Median of means

The settlement law: drop a twentieth of the samples at each end, cut the rest into buckets, average each and take the
median of the averages.
-/

namespace TradingEngine.Settle

open Base List Option

variable {xs ys : List Int} {x lo hi : Int}

def trimPerMille : Nat := 50

def maxBuckets : Nat := 64

/-- Cut the buckets by rank, or by time. -/
inductive BucketOrder where
  | sorted
  | time
  deriving DecidableEq, Repr

def isqrtFrom (n : Nat) : Nat → Nat → Nat
  | 0, k => k
  | fuel + 1, k => if (k + 1) * (k + 1) ≤ n then isqrtFrom n fuel (k + 1) else k

def isqrt (n : Nat) : Nat := isqrtFrom n n 0

/-! ### Steps that may not return -/

def usizeSub (a b : Nat) : Option Nat := if b ≤ a then some (a - b) else none

def i128Top : Int := 170141183460469231731687303715884105728

def i128 (x : Int) : Option Int := if -i128Top ≤ x ∧ x < i128Top then some x else none

def selectNth (select : List Int → Nat → List Int) (xs : List Int) (i : Nat) : Option (List Int) :=
  if i < xs.length then some (select xs i) else none

theorem usizeSub_of_le {a b : Nat} (le : b ≤ a) : usizeSub a b = some (a - b) := if_pos le

theorem selectNth_of_lt {select : List Int → Nat → List Int} {i : Nat} (lt : i < xs.length) :
    selectNth select xs i = some (select xs i) := if_pos lt

/-! ### The law as it runs -/

def trim (n : Nat) : Nat := n * trimPerMille / 1000

section Law

variable (select : List Int → Nat → List Int)

/-- The middle ranks, in some order: the low end is partitioned off, then the high end of the rest. -/
def middle (samples : List Int) : Option (List Int) := do
  let n := samples.length
  let c := trim n
  let work ← if c > 0 then do
      let work ← selectNth select samples c
      let last ← usizeSub n (2 * c + 1)
      let upper ← selectNth select (work.drop c) last
      some (work.take c ++ upper)
    else some samples
  let n2 ← usizeSub n (2 * c)
  some ((work.drop c).take n2)

/-- The samples between the two end ranks, ties kept, in time order. -/
def between (samples : List Int) : Option (List Int) := do
  let n := samples.length
  let c := trim n
  let work ← selectNth select samples c
  let lo ← work[c]?
  let last ← usizeSub n (c + 1)
  let work ← selectNth select work last
  let hi ← work[last]?
  some (samples.filter fun x => lo ≤ x && x ≤ hi)

/-- Partition at each bucket boundary, on the part not cut yet. -/
def cut (size : Nat) : Nat → Nat → List Int → Option (List Int)
  | 0, _, band => some band
  | cuts + 1, lo, band => do
    let rest ← selectNth select (band.drop lo) size
    cut size cuts (lo + size) (band.take lo ++ rest)

def sumFrom (band : List Int) : Nat → Nat → Int → Option Int
  | 0, _, sum => some sum
  | count + 1, i, sum => do
    let x ← band[i]?
    let sum ← i128 (sum + x)
    sumFrom band count (i + 1) sum

/-- The average of bucket `b`, `band[lo..hi]`, in its place. -/
def meanOf (b lo hi : Nat) (sum : Int) : Option Int :=
  if b < maxBuckets ∧ lo < hi then some (i64Wrap (sum.tdiv (hi - lo : Nat))) else none

def bucketMeans (band : List Int) (k size : Nat) : Nat → Nat → Option (List Int)
  | 0, _ => some []
  | left + 1, b => do
    let lo := b * size
    let hi := if b + 1 < k then lo + size else band.length
    let sum ← sumFrom band (hi - lo) lo 0
    let mean ← meanOf b lo hi sum
    let rest ← bucketMeans band k size left (b + 1)
    some (mean :: rest)

def median (means : List Int) : Option Int := do
  let mid := means.length / 2
  let means' ← selectNth select means mid
  let upper ← means'[mid]?
  if means.length % 2 = 1 then some upper
  else do
    let last ← usizeSub mid 1
    let front ← selectNth select (means'.take mid) last
    let lower ← front[last]?
    let sum ← i128 (lower + upper)
    some (i64Wrap (sum.tdiv 2))

def medianOfMeans (samples : List Int) (order : BucketOrder) (scratch : List Int) : Option (Option Int) :=
  if samples.length = 0 ∨ scratch.length < samples.length then some none
  else do
    let band ← match order with
      | .sorted => middle select samples
      | .time => between select samples
    let n2 := band.length
    let k := max (isqrt n2) 1
    let size := n2 / k
    let band ← match order with
      | .sorted => cut select size (k - 1) 0 band
      | .time => some band
    let means ← bucketMeans band k size k 0
    let m ← median select means
    some (some m)

def SettleWindow.settle1e6 (w : SettleWindow) (order : BucketOrder) (scratch : List Int) :
    SettleWindow × Option (Option Int) :=
  (w.finish, medianOfMeans select w.finish.samples order scratch)

end Law

def specBand (order : BucketOrder) (samples : List Int) : List Int :=
  let n := samples.length
  let c := trim n
  match order with
  | .sorted => ((ranked samples).drop c).take (n - 2 * c)
  | .time => samples.filter fun x => (ranked samples).getD c 0 ≤ x && x ≤ (ranked samples).getD (n - c - 1) 0

def bucketMean (bucket : List Int) : Int := bucket.sum.tdiv bucket.length

def specMedian (means : List Int) : Int :=
  let mid := means.length / 2
  if means.length % 2 = 1 then (ranked means).getD mid 0
  else ((ranked means).getD (mid - 1) 0 + (ranked means).getD mid 0).tdiv 2

/-- Trim, cut into equal buckets, average each, take the median. -/
def medianOfMeansSpec (order : BucketOrder) (samples : List Int) : Int :=
  let band := specBand order samples
  let k := max (Nat.sqrt band.length) 1
  specMedian ((chunks (band.length / k) (k - 1) band).map bucketMean)

theorem isqrtFrom_spec (n fuel k : Nat) (reached : k * k ≤ n) (enough : n < (k + fuel + 1) * (k + fuel + 1)) :
    isqrtFrom n fuel k * isqrtFrom n fuel k ≤ n ∧ n < (isqrtFrom n fuel k + 1) * (isqrtFrom n fuel k + 1) := by
  induction fuel generalizing k with
  | zero => exact ⟨reached, enough⟩
  | succ fuel ih =>
    rw [isqrtFrom]
    split
    · rename_i more
      exact ih (k + 1) more (by rwa [show k + 1 + fuel + 1 = k + (fuel + 1) + 1 by omega])
    · rename_i done
      exact ⟨reached, Nat.not_le.mp done⟩

theorem isqrt_eq (n : Nat) : isqrt n = Nat.sqrt n := by
  obtain ⟨le, lt⟩ := isqrtFrom_spec n n 0 (Nat.zero_le n) (by nlinarith)
  exact (Nat.eq_sqrt.mpr ⟨le, lt⟩)

structure Buckets (n2 k size : Nat) : Prop where
  positive : 0 < k
  filled : 0 < size
  fits : (k - 1) * size < n2
  few : k * k ≤ n2

theorem buckets {n2 : Nat} (nonempty : 0 < n2) : Buckets n2 (max (Nat.sqrt n2) 1) (n2 / max (Nat.sqrt n2) 1) := by
  have root : 0 < Nat.sqrt n2 := Nat.sqrt_pos.mpr nonempty
  rw [Nat.max_eq_left root]
  have square : Nat.sqrt n2 * Nat.sqrt n2 ≤ n2 := Nat.sqrt_le n2
  have filled : 0 < n2 / Nat.sqrt n2 := Nat.div_pos ((Nat.le_mul_self _).trans square) root
  refine ⟨root, filled, ?_, square⟩
  calc (Nat.sqrt n2 - 1) * (n2 / Nat.sqrt n2) < Nat.sqrt n2 * (n2 / Nat.sqrt n2) :=
        Nat.mul_lt_mul_of_pos_right (by omega) filled
    _ ≤ n2 := Nat.mul_div_le n2 _

/-! ### The band -/

theorem trim_lt {n : Nat} (nonempty : 0 < n) : 2 * trim n + 1 ≤ n := by
  simp only [trim, trimPerMille]
  omega

section Band

variable {select : List Int → Nat → List Int} (selects : Selects select) {samples : List Int}

include selects

theorem middle_spec (nonempty : 0 < samples.length) :
    ∃ band, middle select samples = some band ∧ ranked band = specBand .sorted samples ∧ ∀ x ∈ band, x ∈ samples := by
  have room := trim_lt nonempty
  unfold middle specBand
  dsimp only
  generalize trim samples.length = c at room ⊢
  rw [usizeSub_of_le (show 2 * c ≤ samples.length by omega)]
  by_cases some : c > 0
  · obtain ⟨left, pivot, right, eq, length, perm, whole, upper, -⟩ := selects.ranks samples c (by omega)
    have size := perm.length_eq
    rw [length_append, length_cons] at size
    obtain ⟨left', pivot', right', eq', length', perm', whole', -, front⟩ :=
      selects.ranks (pivot :: right) (samples.length - (2 * c + 1)) (by rw [length_cons]; omega)
    have rest : (left ++ pivot :: right).drop c = pivot :: right := by rw [← length, drop_left]
    refine ⟨left' ++ [pivot'], ?_, ?_, fun x member => ?_⟩
    · have inside : samples.length - (2 * c + 1) < (pivot :: right).length := by rw [length_cons]; omega
      simp only [some, if_true, selectNth_of_lt (show c < samples.length by omega), eq, usizeSub_of_le room, rest,
        selectNth_of_lt inside, eq', bind_eq_bind, bind_some]
      rw [← length, take_left, drop_left, length, append_cons,
        show samples.length - 2 * c = (left' ++ [pivot']).length by simp; omega, take_left]
    · rw [whole, ← upper, whole', ← length, ← ranked_length left, drop_left, ranked_length, length,
        append_cons (ranked left'), ← front, show samples.length - 2 * c = (ranked (left' ++ [pivot'])).length by
          rw [ranked_length]; simp; omega, take_left]
    · refine perm.mem_iff.mp (mem_append_right _ (perm'.mem_iff.mp ?_))
      rw [append_cons]
      exact mem_append_left _ member
  · obtain rfl : c = 0 := by omega
    refine ⟨samples, by simp, ?_, fun x member => member⟩
    simp only [Nat.mul_zero, Nat.sub_zero, drop_zero]
    exact (take_of_length_le (by rw [ranked_length])).symm

theorem selectNth_ranked {i : Nat} (lt : i < xs.length) :
    ∃ left pivot right, selectNth select xs i = some (left ++ pivot :: right) ∧ left.length = i ∧
      (left ++ pivot :: right)[i]? = some pivot ∧ (left ++ pivot :: right).Perm xs ∧
      ranked xs = ranked left ++ pivot :: ranked right ∧ (ranked xs).getD i 0 = pivot := by
  obtain ⟨left, pivot, right, eq, length, perm, whole, -, -⟩ := selects.ranks xs i lt
  refine ⟨left, pivot, right, (selectNth_of_lt lt).trans (congrArg some eq), length, ?_, perm, whole, ?_⟩
  · simp [← length]
  · rw [whole, ← length, ← ranked_length left]
    simp

theorem between_spec (nonempty : 0 < samples.length) : between select samples = some (specBand .time samples) := by
  have room := trim_lt nonempty
  unfold between specBand
  dsimp only
  generalize trim samples.length = c at room ⊢
  obtain ⟨left, pivot, right, found, -, first, perm, -, low⟩ := selectNth_ranked selects (show c < samples.length by omega)
  obtain ⟨left', pivot', right', found', -, second, -, -, high⟩ :=
    selectNth_ranked selects (show samples.length - (c + 1) < (left ++ pivot :: right).length by rw [perm.length_eq]; omega)
  rw [ranked_congr perm] at high
  simp only [found, first, usizeSub_of_le (show c + 1 ≤ samples.length by omega), found', second, low, Nat.sub_sub, high,
    bind_eq_bind, bind_some]

end Band

theorem specBand_mem {order : BucketOrder} {samples : List Int} (member : x ∈ specBand order samples) :
    x ∈ samples := by
  cases order with
  | sorted => exact mem_ranked.mp (mem_of_mem_drop (mem_of_mem_take member))
  | time => exact mem_of_mem_filter member

theorem specBand_length_le (order : BucketOrder) (samples : List Int) :
    (specBand order samples).length ≤ samples.length := by
  cases order with
  | sorted => simp only [specBand, length_take, length_drop, ranked_length]; omega
  | time => exact length_filter_le _ _

theorem specBand_nonempty {samples : List Int} (nonempty : 0 < samples.length) (order : BucketOrder) :
    0 < (specBand order samples).length := by
  have room := trim_lt nonempty
  cases order with
  | sorted => simp only [specBand, length_take, length_drop, ranked_length]; omega
  | time =>
    -- the low end itself is kept
    have low : trim samples.length < (ranked samples).length := by rw [ranked_length]; omega
    have high : samples.length - trim samples.length - 1 < (ranked samples).length := by rw [ranked_length]; omega
    refine length_pos_of_mem (a := (ranked samples)[trim samples.length]) (mem_filter.mpr ⟨?_, ?_⟩)
    · exact mem_ranked.mp (getElem_mem low)
    rw [getD_eq_getElem _ _ low, getD_eq_getElem _ _ high]
    simp only [le_refl, decide_true, Bool.true_and, decide_eq_true_eq]
    exact (ranked_ascends samples).rel_get_of_le (a := ⟨_, low⟩) (b := ⟨_, high⟩) (by simp only [Fin.mk_le_mk]; omega)

theorem cut_spec {select : List Int → Nat → List Int} (selects : Selects select) {size cuts : Nat}
    (done rest : List Int) (enough : cuts * size < rest.length) :
    ∃ rest', cut select size cuts done.length (done ++ rest) = some (done ++ rest') ∧ rest'.Perm rest ∧
      List.Forall₂ List.Perm (chunks size cuts rest') (chunks size cuts (ranked rest)) := by
  induction cuts generalizing done rest with
  | zero => exact ⟨rest, rfl, .refl _, .cons (ranked_perm rest).symm .nil⟩
  | succ cuts ih =>
    rw [Nat.succ_mul] at enough
    obtain ⟨left, pivot, right, eq, length, perm, whole, upper, -⟩ := selects.ranks rest size (by omega)
    have count := perm.length_eq
    rw [length_append] at count
    obtain ⟨rest', step, perm', same⟩ := ih (done ++ left) (pivot :: right) (by omega)
    refine ⟨left ++ rest', ?_, (perm'.append_left left).trans perm, ?_⟩
    · rw [cut, drop_left, selectNth_of_lt (by omega), eq, take_left, ← append_assoc,
        ← step, length_append, length, append_assoc]
      rfl
    · rw [chunks, chunks, whole, ← upper, ← length, take_left, drop_left, ← ranked_length left,
        take_left, drop_left, ranked_length, length]
      exact .cons (ranked_perm left).symm same

/-! ### Averages -/

theorem bucketMean_perm (perm : xs.Perm ys) : bucketMean xs = bucketMean ys := by
  rw [bucketMean, bucketMean, perm.sum_eq, perm.length_eq]

theorem bucketMean_between (nonempty : xs ≠ []) (bounds : ∀ x ∈ xs, lo ≤ x ∧ x ≤ hi) :
    lo ≤ bucketMean xs ∧ bucketMean xs ≤ hi := by
  have positive : (0 : Int) < xs.length := by exact_mod_cast length_pos_of_ne_nil nonempty
  have least : lo * xs.length ≤ xs.sum := by
    have := card_nsmul_le_sum xs lo fun x member => (bounds x member).1
    rwa [nsmul_eq_mul, mul_comm] at this
  have most : xs.sum ≤ hi * xs.length := by
    have := sum_le_card_nsmul xs hi fun x member => (bounds x member).2
    rwa [nsmul_eq_mul, mul_comm] at this
  constructor
  · calc lo = (lo * xs.length).tdiv xs.length := (Int.mul_tdiv_cancel lo positive.ne').symm
      _ ≤ bucketMean xs := Int.tdiv_le_tdiv positive least
  · calc bucketMean xs ≤ (hi * xs.length).tdiv xs.length := Int.tdiv_le_tdiv positive most
      _ = hi := Int.mul_tdiv_cancel hi positive.ne'

theorem i128_of_small {m : Nat} (few : m ≤ gridPoints) (small : |x| ≤ m * 9223372036854775808) : i128 x = some x := by
  have bounds := abs_le.mp small
  rw [i128, if_pos]
  simp only [i128Top, gridPoints, settleWindowMs, gridStepMs] at *
  omega

theorem abs_le_of_inI64 (word : InI64 x) : |x| ≤ 9223372036854775808 := by
  simp only [InI64, i64Min, i64Max] at word
  exact abs_le.mpr (by omega)

theorem sumFrom_spec {bucket after : List Int} (words : ∀ x ∈ bucket, InI64 x) (before : List Int) {m : Nat} {sum : Int}
    (few : m + bucket.length ≤ gridPoints) (small : |sum| ≤ m * 9223372036854775808) :
    sumFrom (before ++ (bucket ++ after)) bucket.length before.length sum = some (sum + bucket.sum) := by
  induction bucket generalizing before m sum with
  | nil => simp [sumFrom]
  | cons x rest ih =>
    rw [length_cons] at few
    have larger : |sum + x| ≤ (m + 1 : Nat) * 9223372036854775808 := by
      have one := abs_le_of_inI64 (words x (by simp))
      have both := abs_add_le sum x
      push_cast
      linarith
    have here : (before ++ (x :: rest ++ after))[before.length]? = some x := by simp
    have next := ih (fun y member => words y (by simp [member])) (before ++ [x]) (by omega) larger
    rw [length_append, length_singleton, append_assoc, singleton_append] at next
    rw [length_cons, sumFrom, here, bind_eq_bind, bind_some,
      i128_of_small (show m + 1 ≤ gridPoints by omega) larger, bind_some, cons_append, next, sum_cons, Int.add_assoc]

theorem bucketMean_word (nonempty : xs ≠ []) (words : ∀ x ∈ xs, InI64 x) : InI64 (bucketMean xs) :=
  bucketMean_between nonempty words

theorem bucket_step {bucket : List Int} (before after : List Int) (nonempty : bucket ≠ []) (words : ∀ x ∈ bucket, InI64 x)
    (few : bucket.length ≤ gridPoints) :
    sumFrom (before ++ (bucket ++ after)) bucket.length before.length 0 = some bucket.sum ∧
      i64Wrap (bucket.sum.tdiv bucket.length) = bucketMean bucket := by
  refine ⟨?_, wrap_of_inI64 (bucketMean_word nonempty words)⟩
  rw [sumFrom_spec words before (m := 0) (by omega) (by simp), zero_add]

theorem bucketMeans_spec {size : Nat} (filled : 0 < size) (before rest : List Int) (b : Nat) {cuts k : Nat}
    (words : ∀ x ∈ rest, InI64 x) (few : (before ++ rest).length ≤ gridPoints) (enough : cuts * size < rest.length)
    (start : before.length = b * size) (last : b + cuts + 1 = k) (room : k ≤ maxBuckets) :
    bucketMeans (before ++ rest) k size (cuts + 1) b = some ((chunks size cuts rest).map bucketMean) := by
  induction cuts generalizing before rest b with
  | zero =>
    have nonempty : rest ≠ [] := ne_nil_of_length_pos (by omega)
    obtain ⟨sum, mean⟩ := bucket_step before [] nonempty words
      (by rw [length_append] at few; omega)
    rw [append_nil] at sum
    rw [bucketMeans, if_neg (show ¬ b + 1 < k by omega), ← start, length_append, Nat.add_sub_cancel_left, sum,
      bind_eq_bind, bind_some, meanOf, if_pos ⟨by omega, by omega⟩, Nat.add_sub_cancel_left, mean]
    rfl
  | succ cuts ih =>
    rw [Nat.succ_mul] at enough
    have length : (rest.take size).length = size := by rw [length_take]; omega
    have nonempty : rest.take size ≠ [] := ne_nil_of_length_pos (by omega)
    have parts : rest = rest.take size ++ rest.drop size := (take_append_drop size rest).symm
    obtain ⟨sum, mean⟩ := bucket_step before (rest.drop size) nonempty
      (fun x member => words x (mem_of_mem_take member)) (by rw [length_append] at few; omega)
    have next := ih (before ++ rest.take size) (rest.drop size) (b + 1)
      (fun x member => words x (mem_of_mem_drop member)) (by rwa [append_assoc, ← parts])
      (by rw [length_drop]; omega) (by rw [length_append, length, start, Nat.succ_mul]) (by omega)
    rw [append_assoc, ← parts] at next
    rw [← parts, length] at sum
    rw [length] at mean
    rw [bucketMeans, if_pos (show b + 1 < k by omega), ← start, Nat.add_sub_cancel_left, sum, bind_eq_bind,
      bind_some, meanOf, if_pos ⟨by omega, by omega⟩, Nat.add_sub_cancel_left, mean, bind_eq_bind, bind_some, next]
    rfl

theorem median_spec {select : List Int → Nat → List Int} (selects : Selects select) (means : List Int)
    (nonempty : 0 < means.length) (words : ∀ x ∈ means, InI64 x) : median select means = some (specMedian means) := by
  unfold median specMedian
  dsimp only
  obtain ⟨left, upper, right, found, length, here, perm, whole, high⟩ :=
    selectNth_ranked selects (show means.length / 2 < means.length by omega)
  have front : (left ++ upper :: right).take (means.length / 2) = left := by rw [← length, take_left]
  rw [found, bind_eq_bind, bind_some, here, bind_eq_bind, bind_some, high, front]
  by_cases odd : means.length % 2 = 1
  · rw [if_pos odd, if_pos odd]
  obtain ⟨left', lower, right', found', length', there, perm', whole', -⟩ :=
    selectNth_ranked selects (show means.length / 2 - 1 < left.length by omega)
  have low : (ranked means).getD (means.length / 2 - 1) 0 = lower := by
    rw [whole, whole', ← length', ← ranked_length left', append_assoc]
    simp
  have first : InI64 lower := words lower (perm.mem_iff.mp (mem_append_left _ (perm'.mem_iff.mp (by simp))))
  have second : InI64 upper := words upper (perm.mem_iff.mp (by simp))
  have small : |lower + upper| ≤ (2 : Nat) * 9223372036854775808 := by
    have one := abs_le_of_inI64 first
    have two := abs_le_of_inI64 second
    have both := abs_add_le lower upper
    push_cast
    linarith
  have mean : InI64 ((lower + upper).tdiv 2) := by
    have both : InI64 (bucketMean [lower, upper]) := bucketMean_word (by simp) (by simp [first, second])
    simpa [bucketMean] using both
  rw [if_neg odd, if_neg odd, usizeSub_of_le (by omega), bind_eq_bind, bind_some, found', bind_some, there, bind_some,
    i128_of_small (by decide) small, bind_some, wrap_of_inI64 mean, low]

/-! ### The law meets its specification -/

section Spec

variable {select : List Int → Nat → List Int} {samples : List Int} {scratch : List Int}

def specMeans (order : BucketOrder) (samples : List Int) : List Int :=
  let band := specBand order samples
  let k := max (Nat.sqrt band.length) 1
  (chunks (band.length / k) (k - 1) band).map bucketMean

theorem specMeans_length (order : BucketOrder) (samples : List Int) :
    (specMeans order samples).length = max (Nat.sqrt (specBand order samples).length) 1 := by
  rw [specMeans, length_map, chunks_length]
  omega

theorem specMeans_between (nonempty : 0 < samples.length) (order : BucketOrder)
    (bounds : ∀ x ∈ samples, lo ≤ x ∧ x ≤ hi) : ∀ m ∈ specMeans order samples, lo ≤ m ∧ m ≤ hi := by
  intro m member
  obtain ⟨chunk, inside, rfl⟩ := mem_map.mp member
  have shape := buckets (specBand_nonempty nonempty order)
  exact bucketMean_between (chunks_nonempty shape.filled shape.fits inside)
    fun x there => bounds x (specBand_mem (mem_of_mem_chunks inside there))

theorem specMedian_between {means : List Int} (nonempty : 0 < means.length)
    (bounds : ∀ m ∈ means, lo ≤ m ∧ m ≤ hi) : lo ≤ specMedian means ∧ specMedian means ≤ hi := by
  have entry : ∀ {i}, i < means.length → lo ≤ (ranked means).getD i 0 ∧ (ranked means).getD i 0 ≤ hi := by
    intro i lt
    rw [getD_eq_getElem _ _ (by rwa [ranked_length])]
    exact bounds _ (mem_ranked.mp (getElem_mem _))
  unfold specMedian
  dsimp only
  split
  · exact entry (by omega)
  generalize lower : (ranked means).getD (means.length / 2 - 1) 0 = a
  generalize upper : (ranked means).getD (means.length / 2) 0 = b
  have low : lo ≤ a ∧ a ≤ hi := lower ▸ entry (by omega)
  have high : lo ≤ b ∧ b ≤ hi := upper ▸ entry (by omega)
  have both : lo ≤ bucketMean [a, b] ∧ bucketMean [a, b] ≤ hi := bucketMean_between (by simp) (by simpa using ⟨low, high⟩)
  simpa [bucketMean] using both

theorem specBand_buckets (nonempty : 0 < samples.length) (few : samples.length ≤ gridPoints) (order : BucketOrder) :
    max (Nat.sqrt (specBand order samples).length) 1 ≤ maxBuckets := by
  have square := (buckets (specBand_nonempty nonempty order)).few
  have within := (specBand_length_le order samples).trans few
  simp only [gridPoints, settleWindowMs, gridStepMs, maxBuckets] at *
  by_contra many
  nlinarith

theorem bucketMeans_band (nonempty : 0 < samples.length) (few : samples.length ≤ gridPoints)
    (words : ∀ x ∈ samples, InI64 x) (order : BucketOrder) (band : List Int) {n k : Nat} (whole : band.length = n)
    (root : max (Nat.sqrt n) 1 = k) (length : n = (specBand order samples).length) (members : ∀ x ∈ band, x ∈ samples)
    (perms : List.Forall₂ List.Perm (chunks (n / k) (k - 1) band) (chunks (n / k) (k - 1) (specBand order samples))) :
    bucketMeans band k (n / k) k 0 = some (specMeans order samples) := by
  have shape := buckets (specBand_nonempty nonempty order)
  have count := specBand_buckets nonempty few order
  have within := (specBand_length_le order samples).trans few
  have averaged : (chunks (n / k) (k - 1) band).map bucketMean = specMeans order samples := by
    unfold specMeans
    dsimp only
    rw [← length, root]
    exact forall₂_eq_eq_eq ▸ rel_map (fun _ _ perm => bucketMean_perm perm) perms
  rw [← length, root] at shape count
  have positive := shape.positive
  have means := bucketMeans_spec shape.filled [] band 0 (fun x member => words x (members x member))
    (by rw [nil_append]; omega) (by rw [whole]; exact shape.fits) (by simp) (show 0 + (k - 1) + 1 = k by omega) count
  rwa [nil_append, Nat.sub_add_cancel positive, averaged] at means

theorem medianOfMeans_spec (selects : Selects select) (nonempty : 0 < samples.length)
    (few : samples.length ≤ gridPoints) (room : samples.length ≤ scratch.length) (words : ∀ x ∈ samples, InI64 x)
    (order : BucketOrder) :
    medianOfMeans select samples order scratch = some (some (medianOfMeansSpec order samples)) := by
  have averaged := median_spec selects (specMeans order samples)
    (by rw [specMeans_length]; omega) (specMeans_between nonempty order words)
  rw [medianOfMeans, if_neg (by omega)]
  cases order with
  | sorted =>
    obtain ⟨band, isolated, ranks, members⟩ := middle_spec selects nonempty
    have length : band.length = (specBand .sorted samples).length := by rw [← ranks, ranked_length]
    have shape := buckets (specBand_nonempty nonempty .sorted)
    rw [← length] at shape
    obtain ⟨band', partitioned, perm, same⟩ := cut_spec selects [] band shape.fits
    rw [nil_append, nil_append, length_nil] at partitioned
    rw [ranks] at same
    have means := bucketMeans_band nonempty few words .sorted band' perm.length_eq rfl length
      (fun x member => members x (perm.mem_iff.mp member)) same
    simp only [isolated, isqrt_eq, partitioned, means, averaged, bind_eq_bind, bind_some]
    rfl
  | time =>
    have means := bucketMeans_band nonempty few words .time _ rfl rfl rfl (fun x => specBand_mem)
      (forall₂_same.mpr fun _ _ => .refl _)
    simp only [between_spec selects nonempty, isqrt_eq, means, averaged, bind_eq_bind, bind_some]
    rfl

/-! ### Raised samples -/

section

variable (le : List.Forall₂ (· ≤ ·) xs ys)

include le

theorem bucketMean_mono : bucketMean xs ≤ bucketMean ys := by
  have sums : xs.sum ≤ ys.sum := le.sum_le_sum
  rw [bucketMean, bucketMean, ← le.length_eq]
  cases xs with
  | nil => cases le; exact le_refl _
  | cons x rest => exact Int.tdiv_le_tdiv (by simp only [length_cons]; omega) sums

theorem getD_mono (i : Nat) : xs.getD i 0 ≤ ys.getD i 0 := by
  induction le generalizing i with
  | nil => exact le_refl _
  | cons first _ ih =>
    cases i with
    | zero => exact first
    | succ i => exact ih i

theorem specMedian_mono : specMedian xs ≤ specMedian ys := by
  have rank := getD_mono (ranked_mono le)
  unfold specMedian
  rw [← le.length_eq]
  dsimp only
  split
  · exact rank _
  · exact Int.tdiv_le_tdiv (by omega) (add_le_add (rank _) (rank _))

theorem medianOfMeansSpec_mono : medianOfMeansSpec .sorted xs ≤ medianOfMeansSpec .sorted ys := by
  have band : List.Forall₂ (· ≤ ·) (specBand .sorted xs) (specBand .sorted ys) := by
    unfold specBand
    dsimp only
    rw [← le.length_eq]
    exact forall₂_take _ (forall₂_drop _ (ranked_mono le))
  unfold medianOfMeansSpec
  dsimp only
  rw [← band.length_eq]
  exact specMedian_mono (rel_map (fun _ _ le => bucketMean_mono le) (chunks_related band))

end

theorem medianOfMeansSpec_perm (perm : xs.Perm ys) : medianOfMeansSpec .sorted xs = medianOfMeansSpec .sorted ys := by
  unfold medianOfMeansSpec specBand
  dsimp only
  rw [perm.length_eq, ranked_congr perm]

theorem raised {i : Nat} {v : Int} (here : xs[i]? = some x) (le : x ≤ v) : List.Forall₂ (· ≤ ·) xs (xs.set i v) := by
  induction xs generalizing i with
  | nil => exact .nil
  | cons a rest ih =>
    cases i with
    | zero =>
      obtain rfl : a = x := by simpa using here
      exact .cons le (forall₂_refl _)
    | succ i => exact .cons (le_refl a) (ih (by simpa using here))

theorem extremes (nonempty : 0 < samples.length) : ∃ lo ∈ samples, ∃ hi ∈ samples, ∀ x ∈ samples, lo ≤ x ∧ x ≤ hi := by
  have some : samples.toFinset.Nonempty := by
    obtain ⟨x, member⟩ := exists_mem_of_length_pos nonempty
    exact ⟨x, mem_toFinset.mpr member⟩
  obtain ⟨lo, low, least⟩ := samples.toFinset.exists_min_image id some
  obtain ⟨hi, high, most⟩ := samples.toFinset.exists_max_image id some
  exact ⟨lo, mem_toFinset.mp low, hi, mem_toFinset.mp high,
    fun x member => ⟨least x (mem_toFinset.mpr member), most x (mem_toFinset.mpr member)⟩⟩

/-- The law runs to its end on any window's samples and gives what full sorts give: a value between the extremes,
the same for every order of the samples when the buckets are cut by rank, and then never lower for a raised one. -/
theorem medianOfMeans_law (selects : Selects select) (nonempty : samples ≠ []) (few : samples.length ≤ gridPoints)
    (room : samples.length ≤ scratch.length) (words : ∀ x ∈ samples, InI64 x) (order : BucketOrder) :
    medianOfMeans select samples order scratch = some (some (medianOfMeansSpec order samples)) ∧
    (∃ lo ∈ samples, ∃ hi ∈ samples, (∀ x ∈ samples, lo ≤ x ∧ x ≤ hi) ∧
      lo ≤ medianOfMeansSpec order samples ∧ medianOfMeansSpec order samples ≤ hi) ∧
    (∀ other : List Int, other.Perm samples →
      medianOfMeans select other .sorted scratch = medianOfMeans select samples .sorted scratch) ∧
    ∀ (i : Nat) (x v : Int), samples[i]? = some x → x ≤ v → InI64 v →
      ∃ m m', medianOfMeans select samples .sorted scratch = some (some m) ∧
        medianOfMeans select (samples.set i v) .sorted scratch = some (some m') ∧ m ≤ m' := by
  have some : 0 < samples.length := length_pos_of_ne_nil nonempty
  refine ⟨medianOfMeans_spec selects some few room words order, ?_, fun other perm => ?_, fun i x v here le word => ?_⟩
  · obtain ⟨lo, low, hi, high, bounds⟩ := extremes some
    refine ⟨lo, low, hi, high, bounds, ?_⟩
    exact specMedian_between (by rw [← specMeans, specMeans_length]; omega) (specMeans_between some order bounds)
  · have length := perm.length_eq
    rw [medianOfMeans_spec selects (by omega) (by omega) (by omega) (fun x member => words x (perm.mem_iff.mp member)),
      medianOfMeans_spec selects some few room words, medianOfMeansSpec_perm perm]
  refine ⟨_, _, medianOfMeans_spec selects some few room words .sorted,
    medianOfMeans_spec selects (by simpa using some) (by simpa using few) (by simpa using room) ?_ .sorted,
    medianOfMeansSpec_mono (raised here le)⟩
  intro y member
  rcases mem_or_eq_of_mem_set member with old | rfl
  · exact words y old
  · exact word

theorem medianOfMeans_law_three :
    medianOfMeans (fun xs _ => ranked xs) [30, 10, 20] .time [0, 0, 0] =
      some (some (medianOfMeansSpec .time [30, 10, 20])) :=
  (medianOfMeans_law selects_ranked (by decide) (by decide) (by decide) (by decide) .time).1

end Spec

end TradingEngine.Settle
