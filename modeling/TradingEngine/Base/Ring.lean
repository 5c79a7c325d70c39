import TradingEngine.Base.Run

/-!
# Ring buffers

A fixed array, the index of its oldest entry and a count. Its contents are the list read from the oldest entry on,
round the end of the array.
-/

namespace TradingEngine.Base

open List

structure RingBuffer (α : Type*) where
  cells : Nat → α
  head : Nat
  len : Nat

namespace RingBuffer

variable {α : Type*} {cap : Nat} {r : RingBuffer α}

def push (cap : Nat) (r : RingBuffer α) (a : α) : RingBuffer α :=
  { r with cells := Function.update r.cells ((r.head + r.len) % cap) a, len := r.len + 1 }

def pop (cap : Nat) (r : RingBuffer α) : Option (α × RingBuffer α) :=
  if r.len = 0 then none else some (r.cells r.head, { r with head := (r.head + 1) % cap, len := r.len - 1 })

def contents (cap : Nat) (r : RingBuffer α) : List α := (range r.len).map fun i => r.cells ((r.head + i) % cap)

theorem contents_length (cap : Nat) (r : RingBuffer α) : (r.contents cap).length = r.len := by
  simp [contents]

theorem offset_ne {head i j : Nat} (lt : i < j) (room : j < cap) : (head + i) % cap ≠ (head + j) % cap := by
  intro same
  have offsets : i ≡ j [MOD cap] := Nat.ModEq.add_left_cancel' head same
  rw [Nat.ModEq, Nat.mod_eq_of_lt (lt.trans room), Nat.mod_eq_of_lt room] at offsets
  omega

theorem push_contents (room : r.len < cap) (a : α) : (r.push cap a).contents cap = r.contents cap ++ [a] := by
  unfold contents push
  rw [range_succ, map_append]
  congr 1
  · refine map_congr_left fun i member => ?_
    exact Function.update_of_ne (offset_ne (mem_range.mp member) room) _ _
  · simp

theorem pop_contents {a : α} {rest : RingBuffer α} (inside : r.head < cap) (popped : r.pop cap = some (a, rest)) :
    r.contents cap = a :: rest.contents cap ∧ rest.head < cap ∧ rest.len + 1 = r.len := by
  unfold pop at popped
  split at popped
  · exact nomatch popped
  rename_i some
  obtain ⟨rfl, rfl⟩ := Prod.mk.inj (Option.some.inj popped)
  obtain ⟨n, len⟩ := Nat.exists_eq_succ_of_ne_zero some
  refine ⟨?_, Nat.mod_lt _ (Nat.zero_lt_of_lt inside), by dsimp only; omega⟩
  simp only [contents, len, range_succ_eq_map, map_cons, map_map, Nat.add_zero, Nat.mod_eq_of_lt inside, Nat.succ_sub_one]
  congr 1
  refine map_congr_left fun i _ => ?_
  simp only [Function.comp, Nat.mod_add_mod]
  congr 2
  omega

/-- Pop until nothing is left. -/
def drain (cap : Nat) : Nat → RingBuffer α → List α × RingBuffer α
  | 0, r => ([], r)
  | fuel + 1, r =>
    match r.pop cap with
    | none => ([], r)
    | some (a, rest) => (a :: (drain cap fuel rest).1, (drain cap fuel rest).2)

theorem drain_contents (inside : r.head < cap) :
    (r.drain cap r.len).1 = r.contents cap ∧ (r.drain cap r.len).2.head < cap ∧ (r.drain cap r.len).2.len = 0 := by
  generalize fuel : r.len = n
  induction n generalizing r with
  | zero => exact ⟨by simp [drain, contents, fuel], inside, fuel⟩
  | succ n ih =>
    rw [drain]
    cases popped : r.pop cap with
    | none => simp [pop, fuel] at popped
    | some out =>
      obtain ⟨first, inside, shorter⟩ := pop_contents inside popped
      obtain ⟨listed, kept, empty⟩ := ih inside (by omega)
      exact ⟨by rw [first, ← listed], kept, empty⟩

end RingBuffer

end TradingEngine.Base
