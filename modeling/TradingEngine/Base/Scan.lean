import TradingEngine.Base.Saturating

/-!
# Bounded tables

An array is a function of its index.
-/

namespace TradingEngine.Base

open Finset

variable {n i : Nat} {p : Nat → Bool} {w : Nat → Int}

variable {σ α : Type*}

def loop (f : Nat → σ → σ) : Nat → σ → σ
  | 0, s => s
  | n + 1, s => f n (loop f n s)

theorem loop_invariant {f : Nat → σ → σ} {P : Nat → σ → Prop} {s : σ} (start : P 0 s)
    (keep : ∀ i s, i < n → P i s → P (i + 1) (f i s)) : P n (loop f n s) := by
  induction n with
  | zero => exact start
  | succ n ih => exact keep n _ (by omega) (ih fun i s hi => keep i s (by omega))

theorem loop_skip {f : Nat → σ → σ} {m : Nat} (le : m ≤ n)
    (skip : ∀ i s, m ≤ i → i < n → f i s = s) (s : σ) : loop f m s = loop f n s := by
  induction n, le using Nat.le_induction with
  | base => rfl
  | succ n le ih =>
    rw [loop, skip n _ le (by omega), ih fun i s hm hi => skip i s hm (by omega)]

/-- Scan up to `fuel` rows from `i` on and stop at the first that passes the test. -/
def firstFrom (p : Nat → Bool) (i : Nat) : Nat → Option Nat
  | 0 => none
  | fuel + 1 => if p i then some i else firstFrom p (i + 1) fuel

/-- The first row below the bound that passes the test. -/
def firstBelow (p : Nat → Bool) (n : Nat) : Option Nat := firstFrom p 0 n

theorem firstFrom_some {fuel k : Nat} (found : firstFrom p i fuel = some k) :
    i ≤ k ∧ k < i + fuel ∧ p k = true ∧ ∀ j, i ≤ j → j < k → p j = false := by
  induction fuel generalizing i with
  | zero => simp [firstFrom] at found
  | succ fuel ih =>
    rw [firstFrom] at found
    split at found
    · rename_i hit
      cases found
      exact ⟨Nat.le_refl _, by omega, hit, fun j ge lt => by omega⟩
    rename_i miss
    obtain ⟨ge, lt, hit, first⟩ := ih found
    refine ⟨by omega, by omega, hit, fun j ge lt => ?_⟩
    rcases Nat.eq_or_lt_of_le ge with rfl | above
    · simpa using miss
    · exact first j above lt

theorem firstFrom_none {fuel : Nat} (missed : firstFrom p i fuel = none) : ∀ j, i ≤ j → j < i + fuel → p j = false := by
  induction fuel generalizing i with
  | zero => intro j ge lt; omega
  | succ fuel ih =>
    rw [firstFrom] at missed
    split at missed
    · simp at missed
    rename_i miss
    intro j ge lt
    rcases Nat.eq_or_lt_of_le ge with rfl | above
    · simpa using miss
    · exact ih missed j above (by omega)

theorem firstBelow_some (found : firstBelow p n = some i) : i < n ∧ p i = true ∧ ∀ j < i, p j = false := by
  obtain ⟨_, lt, hit, first⟩ := firstFrom_some found
  exact ⟨by omega, hit, fun j lt => first j (by omega) lt⟩

theorem firstBelow_none (missed : firstBelow p n = none) : ∀ i < n, p i = false :=
  fun i lt => firstFrom_none missed i (by omega) (by omega)

def trim (p : Nat → Bool) : Nat → Nat
  | 0 => 0
  | n + 1 => if p n then n + 1 else trim p n

theorem trim_le (p : Nat → Bool) (n : Nat) : trim p n ≤ n := by
  induction n with
  | zero => exact Nat.le_refl _
  | succ n ih =>
    rw [trim]
    split
    · exact Nat.le_refl _
    · omega

theorem trim_above (ge : trim p n ≤ i) (lt : i < n) : p i = false := by
  induction n with
  | zero => omega
  | succ n ih =>
    rw [trim] at ge
    split at ge
    · omega
    rename_i miss
    rcases Nat.lt_succ_iff_lt_or_eq.mp lt with lt | rfl
    · exact ih ge lt
    · simpa using miss

theorem trim_top : trim p n = 0 ∨ p (trim p n - 1) = true := by
  induction n with
  | zero => exact .inl rfl
  | succ n ih =>
    rw [trim]
    split
    · rename_i hit
      exact .inr (by simpa using hit)
    · exact ih

theorem sum_range_update (lt : i < n) (t : Nat → α) (r : α) (w : α → Int) :
    ∑ j ∈ range n, w (Function.update t i r j) = ∑ j ∈ range n, w (t j) - w (t i) + w r := by
  have mem : i ∈ range n := mem_range.mpr lt
  rw [← add_sum_erase _ _ mem, ← add_sum_erase (range n) (fun j => w (t j)) mem, Function.update_self]
  have rest : ∑ j ∈ (range n).erase i, w (Function.update t i r j) = ∑ j ∈ (range n).erase i, w (t j) := by
    apply sum_congr rfl
    intro j member
    rw [Function.update_of_ne (ne_of_mem_erase member)]
  rw [rest]
  omega

theorem term_le_sum (lt : i < n) (nonneg : ∀ j, 0 ≤ w j) : w i ≤ ∑ j ∈ range n, w j :=
  single_le_sum (fun j _ => nonneg j) (mem_range.mpr lt)

theorem sum_le_mul {top : Int} (bound : ∀ j, w j ≤ top) : ∑ j ∈ range n, w j ≤ n * top := by
  simpa using sum_le_card_nsmul (range n) w top fun j _ => bound j

theorem min_satAdd {sum w : Int} (start : 0 ≤ sum) (nonneg : 0 ≤ w) :
    satAdd (min sum i64Max) w = min (sum + w) i64Max := by
  simp only [satAdd, i64Clamp, i64Min, i64Max]; omega

theorem loop_satAdd (nonneg : ∀ i, 0 ≤ w i) (n : Nat) :
    loop (fun i total => if p i then satAdd total (w i) else total) n 0 =
      min (∑ i ∈ range n, if p i then w i else 0) i64Max := by
  induction n with
  | zero => rfl
  | succ n ih =>
    have start : 0 ≤ ∑ i ∈ range n, if p i then w i else 0 :=
      sum_nonneg fun i _ => by split <;> [exact nonneg i; exact Int.le_refl 0]
    rw [loop, ih, sum_range_succ]
    split
    · exact min_satAdd start (nonneg n)
    · rw [add_zero]

variable {κ : Type*}

def amountOf [DecidableEq κ] (owner : α → κ) (amount : α → Int) (k : κ) : List α → Int
  | [] => 0
  | x :: rest => (if owner x = k then amount x else 0) + amountOf owner amount k rest

theorem sum_amounts {owner : α → Option Nat} {amount : α → Int} {xs : List α}
    (known : ∀ x ∈ xs, ∀ j, owner x = some j → j < n) :
    (xs.map amount).sum = amountOf owner amount none xs + ∑ j ∈ range n, amountOf owner amount (some j) xs := by
  induction xs with
  | nil => simp [amountOf]
  | cons x rest ih =>
    have ih := ih fun y member => known y (by simp [member])
    simp only [List.map_cons, List.sum_cons, amountOf, sum_add_distrib, ih]
    cases own : owner x with
    | none => simp; omega
    | some k =>
      have lt := known x (by simp) k own
      have one : ∑ j ∈ range n, (if some k = some j then amount x else 0) = amount x := by simp [sum_ite_eq, lt]
      rw [one]
      simp
      omega

end TradingEngine.Base
