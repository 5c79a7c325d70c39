import TradingEngine.Base.Scan

/-!
# A sorted key table

The keys of a table rise, and the unused tail holds the greatest key.
-/

namespace TradingEngine.Base

open Function

variable {α β : Type*}

def descend [LE α] [DecidableLE α] (keys : Nat → α) (x : α) : Nat → Nat → Nat → Nat
  | 0, base, _ => base
  | fuel + 1, base, size =>
    if 1 < size then
      let half := size / 2
      let mid := base + half
      descend keys x fuel (if keys mid ≤ x then mid else base) (size - half)
    else base

/-- Move the rows with a greater key up by one, from the top down; the hole ends where the key belongs. -/
def shiftUp [LT α] [DecidableLT α] (x : α) : Nat → (Nat → α) → (Nat → β) → Nat × (Nat → α) × (Nat → β)
  | 0, keys, rows => (0, keys, rows)
  | n + 1, keys, rows =>
    if x < keys n then
      shiftUp x n (update keys (n + 1) (keys n)) (update rows (n + 1) (rows n))
    else (n + 1, keys, rows)

section Descend

variable [LinearOrder α] {keys : Nat → α} {x : α}

theorem descend_spec {bound : Nat} (sorted : ∀ i j, i ≤ j → j < bound → keys i ≤ keys j) :
    ∀ {fuel base size : Nat}, size ≤ fuel → 0 < size → base + size ≤ bound →
      (base = 0 ∨ keys base ≤ x) → (∀ j, base + size ≤ j → j < bound → x < keys j) →
      ∃ i, descend keys x fuel base size = i ∧ i < bound ∧ (i = 0 ∨ keys i ≤ x) ∧ ∀ j, i < j → j < bound → x < keys j := by
  intro fuel
  induction fuel with
  | zero => intro base size le pos; omega
  | succ fuel ih =>
    intro base size le pos fits low high
    rw [descend]
    by_cases more : 1 < size
    · simp only [more, if_true]
      by_cases left : keys (base + size / 2) ≤ x
      · rw [if_pos left]
        exact ih (by omega) (by omega) (by omega) (.inr left) fun j ge => high j (by omega)
      rw [if_neg left]
      refine ih (by omega) (by omega) (by omega) low fun j ge lt => ?_
      calc x < keys (base + size / 2) := not_le.mp left
        _ ≤ keys j := sorted _ _ (by omega) lt
    · simp only [more, if_false]
      exact ⟨base, rfl, by omega, low, fun j gt => high j (by omega)⟩

theorem descend_hit {bound i : Nat} (sorted : ∀ i j, i ≤ j → j < bound → keys i ≤ keys j)
    (lt : i < bound) (key : keys i = x) :
    descend keys x bound 0 bound < bound ∧ keys (descend keys x bound 0 bound) = x := by
  obtain ⟨k, same, klt, low, high⟩ := descend_spec (x := x) sorted (Nat.le_refl bound) (by omega)
    (by omega) (.inl rfl) fun j ge => by omega
  rw [same]
  have le : i ≤ k := by
    by_contra gt
    exact absurd key (ne_of_gt (high i (by omega) lt))
  refine ⟨klt, le_antisymm ?_ (key ▸ sorted i k le klt)⟩
  rcases low with rfl | low
  · rw [show i = 0 by omega] at key
    exact key.le
  · exact low

end Descend

section Shift

variable [LinearOrder α]

/-- What the shift leaves: the rows below the hole, the hole, and the moved rows above it. -/
structure Shifted (x : α) (n : Nat) (keys : Nat → α) (rows : Nat → β) (hole : Nat)
    (keys' : Nat → α) (rows' : Nat → β) : Prop where
  le : hole ≤ n
  below : ∀ j < hole, keys' j = keys j ∧ rows' j = rows j
  moved : ∀ j, hole < j → j ≤ n → keys' j = keys (j - 1) ∧ rows' j = rows (j - 1)
  above : ∀ j, n < j → keys' j = keys j ∧ rows' j = rows j
  greater : ∀ j, hole ≤ j → j < n → x < keys j
  not_greater : hole = 0 ∨ keys (hole - 1) ≤ x

theorem shiftUp_shifted (x : α) (n : Nat) (keys : Nat → α) (rows : Nat → β) :
    Shifted x n keys rows (shiftUp x n keys rows).1 (shiftUp x n keys rows).2.1
      (shiftUp x n keys rows).2.2 := by
  induction n generalizing keys rows with
  | zero =>
    refine ⟨Nat.le_refl _, fun j lt => absurd lt (by simp [shiftUp]), fun j gt le => ?_,
      fun j _ => ⟨rfl, rfl⟩, fun j _ lt => by omega, .inl rfl⟩
    omega
  | succ n ih =>
    rw [shiftUp]
    by_cases greater : x < keys n
    · rw [if_pos greater]
      have tail := ih (update keys (n + 1) (keys n)) (update rows (n + 1) (rows n))
      have keep : ∀ j, j ≠ n + 1 → update keys (n + 1) (keys n) j = keys j ∧
          update rows (n + 1) (rows n) j = rows j := fun j ne => ⟨update_of_ne ne _ _, update_of_ne ne _ _⟩
      generalize shiftUp x n _ _ = out at tail ⊢
      have le := tail.le
      refine ⟨by omega, fun j lt => ?_, fun j gt le' => ?_, fun j gt => ?_, fun j ge lt => ?_, ?_⟩
      · rw [(tail.below j lt).1, (tail.below j lt).2]
        exact keep j (by omega)
      · rcases Nat.lt_or_ge n j with top | inside
        · obtain rfl : j = n + 1 := by omega
          rw [(tail.above _ top).1, (tail.above _ top).2]
          exact ⟨update_self .., update_self ..⟩
        · rw [(tail.moved j gt inside).1, (tail.moved j gt inside).2]
          exact keep (j - 1) (by omega)
      · rw [(tail.above j (by omega)).1, (tail.above j (by omega)).2]
        exact keep j (by omega)
      · rcases Nat.lt_or_ge j n with inside | top
        · have := tail.greater j ge inside
          rwa [(keep j (by omega)).1] at this
        · rwa [show j = n by omega]
      · rcases tail.not_greater with zero | le'
        · exact .inl zero
        · rw [(keep _ (by omega)).1] at le'
          exact .inr le'
    · rw [if_neg greater]
      exact ⟨Nat.le_refl _, fun j _ => ⟨rfl, rfl⟩, fun j gt le => by omega, fun j _ => ⟨rfl, rfl⟩,
        fun j ge lt => by omega, .inr (by simpa using greater)⟩

theorem shiftUp_sum (w : β → Int) {bound : Nat} (x : α) {n : Nat} (lt : n < bound) (keys : Nat → α) (rows : Nat → β) :
    ∑ j ∈ Finset.range bound, w ((shiftUp x n keys rows).2.2 j) -
        w ((shiftUp x n keys rows).2.2 (shiftUp x n keys rows).1) = ∑ j ∈ Finset.range bound, w (rows j) - w (rows n) := by
  induction n generalizing keys rows with
  | zero => rfl
  | succ n ih =>
    rw [shiftUp]
    split
    · rw [ih (by omega), sum_range_update lt, update_of_ne (by omega)]
      omega
    · rfl

end Shift

section Rising

variable [LinearOrder α] {last : α} {n : Nat} {keys : Nat → α}

/-- The first `n` keys rise, below the key `last` that fills the tail. -/
structure Rising (last : α) (n : Nat) (keys : Nat → α) : Prop where
  below : ∀ j < n, keys j < last
  rises : ∀ i j, i < j → j < n → keys i < keys j
  tail : ∀ j, n ≤ j → keys j = last

section

variable (h : Rising last n keys)

include h

theorem Rising.sorted {i j : Nat} (le : i ≤ j) : keys i ≤ keys j := by
  rcases Nat.eq_or_lt_of_le le with rfl | lt
  · exact le_refl _
  rcases Nat.lt_or_ge j n with inside | outside
  · exact (h.rises i j lt inside).le
  rw [h.tail j outside]
  rcases Nat.lt_or_ge i n with inside' | outside'
  · exact (h.below i inside').le
  · exact (h.tail i outside').le

theorem Rising.index_unique {i j : Nat} (used : i < n) (same : keys j = keys i) : j = i := by
  have used' : j < n := by
    by_contra outside
    rw [h.tail j (by omega)] at same
    exact absurd same (ne_of_gt (h.below i used))
  rcases Nat.lt_trichotomy i j with lt | rfl | gt
  · exact absurd same (ne_of_gt (h.rises i j lt used'))
  · rfl
  · exact absurd same (ne_of_lt (h.rises j i gt used))

theorem Rising.descend_eq {bound i : Nat} (fits : n ≤ bound) (used : i < n) : descend keys (keys i) bound 0 bound = i :=
  h.index_unique used (descend_hit (fun _ _ le _ => h.sorted le) (Nat.lt_of_lt_of_le used fits) rfl).2

theorem Rising.insert {x : α} (below : x < last) (fresh : ∀ j < n, keys j ≠ x)
    {rows : Nat → β} {hole : Nat} {keys' : Nat → α} {rows' : Nat → β}
    (shifted : Shifted x n keys rows hole keys' rows') :
    Rising last (n + 1) (update keys' hole x) := by
  have le := shifted.le
  have less : ∀ j < hole, keys j < x := by
    intro j lt
    rcases shifted.not_greater with zero | top
    · omega
    · exact lt_of_le_of_ne ((h.sorted (by omega)).trans top) (fresh j (by omega))
  have cell : ∀ j ≤ n, update keys' hole x j = if j < hole then keys j else if j = hole then x else keys (j - 1) := by
    intro j le'
    rcases Nat.lt_trichotomy j hole with lt | rfl | gt
    · rw [update_of_ne (by omega), (shifted.below j lt).1, if_pos lt]
    · simp
    · rw [update_of_ne (by omega), (shifted.moved j gt le').1, if_neg (by omega), if_neg (by omega)]
  refine ⟨fun j lt => ?_, fun i j lt lt' => ?_, fun j ge => ?_⟩
  · rw [cell j (by omega)]
    split
    · exact h.below j (by omega)
    · split
      · exact below
      · exact h.below (j - 1) (by omega)
  · rw [cell i (by omega), cell j (by omega)]
    -- the new key splits the old ones: smaller ones keep their place, greater ones move up
    split
    · rename_i low
      split
      · exact h.rises i j lt (by omega)
      · split
        · exact less i low
        · exact h.rises i (j - 1) (by omega) (by omega)
    · rw [if_neg (show ¬ j < hole by omega), if_neg (show ¬ j = hole by omega)]
      split
      · exact shifted.greater (j - 1) (by omega) (by omega)
      · exact h.rises (i - 1) (j - 1) (by omega) (by omega)
  · rw [update_of_ne (by omega), (shifted.above j (by omega)).1]
    exact h.tail j (by omega)

end

end Rising

end TradingEngine.Base
