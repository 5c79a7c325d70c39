import Mathlib.Data.List.Basic
import Mathlib.Order.Lattice

/-!
# Sample and hold

A series of stamped values, and the value in force at an instant: that of the last entry stamped at or before it.
-/

namespace TradingEngine.Base

open List

variable {τ α : Type*} [LinearOrder τ] {series before after : List (τ × α)} {p : τ × α} {g : τ}

def heldAt (series : List (τ × α)) (g : τ) : Option α := (series.filter fun p => p.1 ≤ g).getLast?.map Prod.snd

theorem heldAt_of_all (all : ∀ p ∈ series, p.1 ≤ g) : heldAt series g = series.getLast?.map Prod.snd := by
  rw [heldAt, filter_eq_self.mpr fun p member => by simpa using all p member]

theorem heldAt_concat_of_lt (later : g < p.1) : heldAt (series ++ [p]) g = heldAt series g := by
  rw [heldAt, heldAt, filter_append, filter_cons_of_neg (by simpa using later), filter_nil, append_nil]

theorem heldAt_repeated (earlier : ∀ q ∈ before, q.1 ≤ p.1) (repeats : before.getLast?.map Prod.snd = some p.2)
    (g : τ) : heldAt (before ++ p :: after) g = heldAt (before ++ after) g := by
  unfold heldAt
  rw [filter_append, filter_append]
  by_cases reached : p.1 ≤ g
  · rw [filter_cons_of_pos (by simpa using reached),
      filter_eq_self.mpr fun q member => by simpa using (earlier q member).trans reached]
    rcases eq_nil_or_concat (after.filter fun q : τ × α => decide (q.1 ≤ g)) with nil | ⟨front, last, eq⟩
    · simp [nil, repeats]
    · rw [eq, concat_eq_append, ← cons_append, ← append_assoc, ← append_assoc, getLast?_concat, getLast?_concat]
  · rw [filter_cons_of_neg (by simpa using reached)]

end TradingEngine.Base
