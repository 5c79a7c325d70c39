import TradingEngine.Base.Scan

/-!
# Rows kept at the front of an array

An array is a function of its index and its first `n` rows are the list it stands for.
-/

namespace TradingEngine.Base

open Function List

variable {α β γ : Type*}

/-- `a[j] = a[j + 1]`, upward from `j`. -/
def closeGap (a : Nat → α) : Nat → Nat → Nat → α
  | 0, _ => a
  | count + 1, j => closeGap (update a j (a (j + 1))) count (j + 1)

/-- `a[j] = a[j - 1]`, downward from `j`. -/
def openGap (a : Nat → α) : Nat → Nat → Nat → α
  | 0, _ => a
  | count + 1, j => openGap (update a j (a (j - 1))) count (j - 1)

theorem closeGap_apply (a : Nat → α) (count j x : Nat) :
    closeGap a count j x = if j ≤ x ∧ x < j + count then a (x + 1) else a x := by
  induction count generalizing a j with
  | zero => rw [closeGap, if_neg (by omega)]
  | succ count ih =>
    rw [closeGap, ih]
    rcases Nat.lt_trichotomy x j with lt | rfl | gt
    · rw [if_neg (by omega), if_neg (by omega), update_of_ne (by omega)]
    · rw [if_neg (by omega), if_pos (by omega), update_self]
    rw [update_of_ne (show x + 1 ≠ j by omega), update_of_ne (show x ≠ j by omega)]
    congr 1
    simp only [eq_iff_iff]
    omega

theorem openGap_apply (a : Nat → α) {count j : Nat} (le : count ≤ j) (x : Nat) :
    openGap a count j x = if j - count < x ∧ x ≤ j then a (x - 1) else a x := by
  induction count generalizing a j with
  | zero => rw [openGap, if_neg (by omega)]
  | succ count ih =>
    rw [openGap, ih _ (by omega)]
    rcases Nat.lt_trichotomy x j with lt | rfl | gt
    · rw [update_of_ne (show x - 1 ≠ j by omega), update_of_ne (show x ≠ j by omega)]
      congr 1
      simp only [eq_iff_iff]
      omega
    · rw [if_neg (by omega), if_pos (by omega), update_self]
    · rw [if_neg (by omega), if_neg (by omega), update_of_ne (by omega)]

theorem loop_write (f : Nat → α) (base n : Nat) (out : Nat → α) (x : Nat) :
    loop (fun i out => update out (base + i) (f i)) n out x = if base ≤ x ∧ x < base + n then f (x - base) else out x := by
  induction n with
  | zero => rw [loop, if_neg (by omega)]
  | succ n ih =>
    rw [loop]
    by_cases last : x = base + n
    · subst last
      rw [update_self, if_pos (by omega), Nat.add_sub_cancel_left]
    rw [update_of_ne last, ih]
    congr 1
    simp only [eq_iff_iff]
    omega

def rows (a : Nat → α) (n : Nat) : List α := (range n).map a

@[simp] theorem rows_length (a : Nat → α) (n : Nat) : (rows a n).length = n := by simp [rows]

theorem rows_getElem? (a : Nat → α) {n i : Nat} (lt : i < n) : (rows a n)[i]? = some (a i) := by
  simp [rows, lt]

theorem rows_eq_iff {a : Nat → α} {n : Nat} {xs : List α} :
    rows a n = xs ↔ xs.length = n ∧ ∀ i, i < n → xs[i]? = some (a i) := by
  refine ⟨?_, ?_⟩
  · rintro rfl
    exact ⟨rows_length a n, fun i lt => rows_getElem? a lt⟩
  rintro ⟨length, cells⟩
  apply ext_getElem?
  intro i
  rcases Nat.lt_or_ge i n with lt | ge
  · rw [rows_getElem? a lt, cells i lt]
  · rw [getElem?_eq_none (by simpa using ge), getElem?_eq_none (by omega)]

theorem rows_take (a : Nat → α) {m n : Nat} (le : m ≤ n) : (rows a n).take m = rows a m := by
  rw [rows, rows, ← map_take, take_range, Nat.min_eq_left le]

section Around

variable {a : Nat → α} {n : Nat} {left right : List α} {x y : α}

theorem rows_replaced (here : rows a n = left ++ y :: right) :
    rows (update a left.length x) n = left ++ x :: right := by
  obtain ⟨length, cells⟩ := rows_eq_iff.mp here
  refine rows_eq_iff.mpr ⟨by simpa using length, fun i lt => ?_⟩
  have := cells i lt
  grind [update_apply]

theorem rows_closeGap (here : rows a n = left ++ y :: right) :
    rows (closeGap a (n - (left.length + 1)) left.length) (n - 1) = left ++ right := by
  obtain ⟨length, cells⟩ := rows_eq_iff.mp here
  rw [length_append, length_cons] at length
  refine rows_eq_iff.mpr ⟨by rw [length_append]; omega, fun i lt => ?_⟩
  have := cells i (by omega)
  have := cells (i + 1) (by omega)
  grind [closeGap_apply]

theorem rows_openGap (here : rows a n = left ++ right) :
    rows (update (openGap a (n - left.length) n) left.length x) (n + 1) = left ++ x :: right := by
  obtain ⟨length, cells⟩ := rows_eq_iff.mp here
  rw [length_append] at length
  refine rows_eq_iff.mpr ⟨by rw [length_append, length_cons]; omega, fun i lt => ?_⟩
  have := cells i
  have := cells (i - 1)
  grind [update_apply, openGap_apply]

theorem rows_openGap_full (here : rows a (n + 1) = left ++ right) (inside : left.length ≤ n) :
    rows (update (openGap a (n - left.length) n) left.length x) (n + 1) = (left ++ x :: right).take (n + 1) := by
  have shorter : rows a n = left ++ right.take (n - left.length) := by
    rw [← rows_take a (Nat.le_succ n), here, take_append, take_of_length_le inside]
  rw [rows_openGap shorter, take_append, take_of_length_le (show left.length ≤ n + 1 by omega),
    show n + 1 - left.length = (n - left.length) + 1 by omega, take_succ_cons]

end Around

section Paired

variable (f : α → β → γ) (a : Nat → α) (b : Nat → β)

theorem closeGap_paired (count j x : Nat) :
    f (closeGap a count j x) (closeGap b count j x) = closeGap (fun i => f (a i) (b i)) count j x := by
  rw [closeGap_apply, closeGap_apply, closeGap_apply]
  split <;> rfl

theorem openGap_paired {count j : Nat} (le : count ≤ j) (x : Nat) :
    f (openGap a count j x) (openGap b count j x) = openGap (fun i => f (a i) (b i)) count j x := by
  rw [openGap_apply _ le, openGap_apply _ le, openGap_apply _ le]
  split <;> rfl

theorem update_paired (i x : Nat) (c : α) (d : β) :
    f (update a i c x) (update b i d x) = update (fun i => f (a i) (b i)) i (f c d) x := by
  by_cases same : x = i
  · subst same; simp
  · simp [update_of_ne same]

end Paired

end TradingEngine.Base
