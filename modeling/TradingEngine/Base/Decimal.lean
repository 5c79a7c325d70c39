import Mathlib

/-!
# Runs of decimal digits

The value of a run of ASCII digits, and the loop that reads one: it steps a state once per digit until another byte or
the end, and may give up on the way.
-/

namespace TradingEngine.Base

open List

def isDigit (b : UInt8) : Bool := 48 ≤ b.toNat && b.toNat ≤ 57

def digit (b : UInt8) : Nat := b.toNat - 48

def digits (bytes : List UInt8) : List UInt8 := bytes.takeWhile isDigit

def decimalFrom (v : Nat) (ds : List UInt8) : Nat := ds.foldl (fun v b => v * 10 + digit b) v

def decimal (ds : List UInt8) : Nat := decimalFrom 0 ds

section Value

variable {ds es : List UInt8} {v : Nat}

theorem decimalFrom_eq (v : Nat) (ds : List UInt8) : decimalFrom v ds = v * 10 ^ ds.length + decimal ds := by
  induction ds generalizing v with
  | nil => simp [decimal, decimalFrom]
  | cons b ds ih =>
    have step : ∀ w, decimalFrom w (b :: ds) = decimalFrom (w * 10 + digit b) ds := fun w => rfl
    rw [decimal, step, step, ih, ih (0 * 10 + digit b), length_cons, pow_succ]
    ring

theorem decimal_append (ds es : List UInt8) : decimal (ds ++ es) = decimal ds * 10 ^ es.length + decimal es := by
  rw [← decimalFrom_eq, decimal, decimalFrom, foldl_append]
  rfl

theorem digit_lt {b : UInt8} (isDigit : isDigit b = true) : digit b < 10 := by
  simp only [Base.isDigit, Bool.and_eq_true, decide_eq_true_eq] at isDigit
  simp only [digit]
  omega

theorem decimal_lt (ds : List UInt8) (all : ∀ b ∈ ds, isDigit b = true) : decimal ds < 10 ^ ds.length := by
  induction ds using reverseRecOn with
  | nil => exact Nat.one_pos
  | append_singleton ds b ih =>
    have low := ih fun c member => all c (by simp [member])
    have last : decimal [b] < 10 := by simpa [decimal, decimalFrom] using digit_lt (all b (by simp))
    rw [decimal_append, length_append, length_singleton, pow_one, pow_succ]
    omega

theorem le_decimalFrom (v : Nat) (ds : List UInt8) : v ≤ decimalFrom v ds := by
  rw [decimalFrom_eq]
  exact (Nat.le_mul_of_pos_right v (Nat.pow_pos (by omega))).trans (Nat.le_add_right _ _)

theorem decimal_replicate_zero (n : Nat) : decimal (replicate n 48) = 0 := by
  induction n with
  | zero => rfl
  | succ n ih =>
    rw [replicate_succ', decimal_append, ih]
    rfl

theorem decimal_lt_pow {n : Nat} (all : ∀ b ∈ ds, isDigit b = true) (short : ds.length ≤ n) : decimal ds < 10 ^ n :=
  (decimal_lt ds all).trans_le (Nat.pow_le_pow_right (by omega) short)

theorem decimal_take (all : ∀ b ∈ ds, isDigit b = true) (n : Nat) :
    decimal (ds.take n) = decimal ds / 10 ^ (ds.length - n) := by
  have low := decimal_lt (ds.drop n) fun b member => all b (mem_of_mem_drop member)
  rw [length_drop] at low
  have parts := decimal_append (ds.take n) (ds.drop n)
  rw [take_append_drop, length_drop] at parts
  rw [parts, Nat.add_comm, Nat.add_mul_div_right _ _ (Nat.pow_pos (by omega)), Nat.div_eq_of_lt low, Nat.zero_add]

end Value

section Front

variable {bytes rest ds : List UInt8}

theorem digits_all {b : UInt8} (member : b ∈ digits bytes) : isDigit b = true := mem_takeWhile_imp member

/-- No digit comes next. -/
def Stops (rest : List UInt8) : Prop := ∀ b, rest.head? = some b → isDigit b = false

theorem digits_rest (bytes : List UInt8) : ∃ rest, bytes = digits bytes ++ rest ∧ Stops rest := by
  refine ⟨bytes.dropWhile isDigit, takeWhile_append_dropWhile.symm, fun b first => ?_⟩
  have boundary := head?_dropWhile_not isDigit bytes
  rwa [first] at boundary

theorem digits_append (all : ∀ b ∈ ds, isDigit b = true) (stop : Stops rest) : digits (ds ++ rest) = ds := by
  rw [digits, takeWhile_append_of_pos all]
  cases rest with
  | nil => simp
  | cons b rest => simp [stop b rfl]

end Front

section Loop

variable {σ : Type*} {step : σ → UInt8 → Option σ}

/-- Step once per digit; answers the state and the number of digits read. -/
def runDigits (step : σ → UInt8 → Option σ) : List UInt8 → σ → Nat → Option (σ × Nat)
  | [], s, n => some (s, n)
  | b :: rest, s, n =>
    if isDigit b then (step s b).bind fun s => runDigits step rest s (n + 1) else some (s, n)

theorem runDigits_eq (step : σ → UInt8 → Option σ) (bytes : List UInt8) (s : σ) (n : Nat) :
    runDigits step bytes s n = ((digits bytes).foldlM step s).map fun s => (s, n + (digits bytes).length) := by
  induction bytes generalizing s n with
  | nil => rfl
  | cons b rest ih =>
    rw [runDigits, digits, takeWhile_cons]
    cases digit : isDigit b with
    | false => rfl
    | true =>
      rw [if_pos rfl, if_pos rfl, foldlM_cons]
      cases step s b with
      | none => rfl
      | some t =>
        rw [Option.bind_some, ih]
        simp only [Option.bind_eq_bind, Option.bind_some, length_cons, digits, Nat.add_assoc, Nat.add_comm 1]

def checkedStep (top : Nat) (v : Nat) (b : UInt8) : Option Nat :=
  if v * 10 ≤ top ∧ v * 10 + digit b ≤ top then some (v * 10 + digit b) else none

theorem foldlM_checked {top v : Nat} (small : v ≤ top) (ds : List UInt8) :
    ds.foldlM (checkedStep top) v = if decimalFrom v ds ≤ top then some (decimalFrom v ds) else none := by
  induction ds generalizing v with
  | nil => rw [foldlM_nil, decimalFrom, foldl_nil, if_pos small]; rfl
  | cons b ds ih =>
    have grows := le_decimalFrom (v * 10 + digit b) ds
    have next : decimalFrom v (b :: ds) = decimalFrom (v * 10 + digit b) ds := rfl
    rw [foldlM_cons, checkedStep, next]
    by_cases fits : v * 10 ≤ top ∧ v * 10 + digit b ≤ top
    · rw [if_pos fits]
      exact ih fits.2
    · rw [if_neg fits, if_neg (by omega)]
      rfl

end Loop

end TradingEngine.Base
