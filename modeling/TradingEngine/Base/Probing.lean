import Mathlib.Data.Fintype.Card
import Mathlib.Data.Fintype.EquivFin
import Mathlib.Data.Finset.Card
import Mathlib.Logic.Basic

/-!
# Open addressing with linear probing

A cyclic table of `m` slots.
-/

namespace TradingEngine.Base

open Function Option

/-- The steps up from slot `i` to slot `j`, round the end. -/
def ahead (m i j : Nat) : Nat := if i ≤ j then j - i else j + m - i

/-- The slot after `i`. -/
def nextSlot (m i : Nat) : Nat := (i + 1) % m

section Ahead

variable {m h i j : Nat}

theorem nextSlot_eq (inside : i < m) : nextSlot m i = if i + 1 = m then 0 else i + 1 := by
  unfold nextSlot
  split
  next last => rw [last, Nat.mod_self]
  next => exact Nat.mod_eq_of_lt (by omega)

theorem nextSlot_lt (inside : i < m) : nextSlot m i < m := Nat.mod_lt _ (by omega)

theorem ahead_lt (hi : i < m) (hj : j < m) : ahead m i j < m := by
  unfold ahead
  split <;> omega

theorem ahead_self (m i : Nat) : ahead m i i = 0 := by
  simp [ahead]

theorem ahead_pos (hi : i < m) (ne : i ≠ j) : 0 < ahead m i j := by
  unfold ahead
  split <;> omega

theorem ahead_inj (hh : h < m) (hi : i < m) (hj : j < m) (same : ahead m h i = ahead m h j) : i = j := by
  unfold ahead at same
  split at same <;> split at same <;> omega

theorem ahead_add (hh : h < m) (hi : i < m) (hj : j < m) (first : ahead m h i ≤ ahead m h j) :
    ahead m h j = ahead m h i + ahead m i j := by
  unfold ahead at first ⊢
  split_ifs at first ⊢ <;> omega

theorem ahead_between {p : Nat} (hh : h < m) (hi : i < m) (hj : j < m) (hp : p < m) (first : ahead m h i < ahead m h p)
    (second : ahead m i j < ahead m i p) : ahead m h j < ahead m h p := by
  unfold ahead at first second ⊢
  split_ifs at first second ⊢ <;> omega

theorem ahead_next (hh : h < m) (hi : i < m) (ne : nextSlot m i ≠ h) : ahead m h (nextSlot m i) = ahead m h i + 1 := by
  rw [nextSlot_eq hi] at ne ⊢
  unfold ahead
  split_ifs at ne ⊢ <;> omega

theorem ahead_from_next (hi : i < m) (hj : j < m) (ne : i ≠ j) : ahead m (nextSlot m i) j + 1 = ahead m i j := by
  rw [nextSlot_eq hi]
  unfold ahead
  split_ifs <;> omega

theorem ahead_next_self (hi : i < m) (two : 1 < m) : ahead m i (nextSlot m i) = 1 := by
  rw [nextSlot_eq hi]
  unfold ahead
  split_ifs <;> omega

end Ahead

section Table

variable {α κ : Type} {m : Nat} {home : α → Nat} {key : α → κ} {T : Nat → Option α} {a : α}

def Stored (m : Nat) (T : Nat → Option α) (a : α) : Prop := ∃ i < m, T i = some a

/-- A table: elements are reached from their homes, and no key is stored twice. -/
structure Probing (m : Nat) (home : α → Nat) (key : α → κ) (T : Nat → Option α) : Prop where
  homes : ∀ a, Stored m T a → home a < m
  reach : ∀ j < m, ∀ a, T j = some a → ∀ i < m, ahead m (home a) i < ahead m (home a) j → T i ≠ none
  once : ∀ i < m, ∀ j < m, ∀ a b, T i = some a → T j = some b → key a = key b → i = j

theorem Probing.congr {home' : α → Nat} {key' : α → κ} (table : Probing m home key T)
    (homes : ∀ a, Stored m T a → home' a = home a) (keys : ∀ a, Stored m T a → key' a = key a) :
    Probing m home' key' T := by
  refine ⟨?_, ?_, ?_⟩
  · intro a stored
    rw [homes a stored]
    exact table.homes a stored
  · intro j bound a here
    rw [homes a ⟨j, bound, here⟩]
    exact table.reach j bound a here
  · intro i inside j bound a b here there
    rw [keys a ⟨i, inside, here⟩, keys b ⟨j, bound, there⟩]
    exact table.once i inside j bound a b here there

theorem Probing.empty (m : Nat) (home : α → Nat) (key : α → κ) : Probing m home key fun _ => none := by
  refine ⟨?_, ?_, ?_⟩
  · rintro a ⟨i, -, here⟩
    cases here
  · intro j _ a here
    cases here
  · intro i _ j _ a b here
    cases here

/-- Where a probe ends: at an element it looked for, at an empty slot, or nowhere. -/
inductive Landing where
  | hit (i : Nat)
  | empty (i : Nat)
  | lost
  deriving DecidableEq, Repr

/-- Slots from `i` on, for as many turns as `fuel`. -/
def probe (m : Nat) (T : Nat → Option α) (hit : α → Bool) : Nat → Nat → Landing
  | 0, _ => .lost
  | fuel + 1, i =>
    match T i with
    | none => .empty i
    | some a => if hit a then .hit i else probe m T hit fuel (nextSlot m i)

def inRange (hole home j : Nat) : Bool :=
  if hole ≤ j then hole < home && home ≤ j else hole < home || home ≤ j

/-- The later elements of the chain move back into the hole; the answer is the table, the hole left at the end and
whether an empty slot was met. -/
def shiftBack (m : Nat) (home : α → Nat) : Nat → (Nat → Option α) → Nat → Nat → (Nat → Option α) × Nat × Bool
  | 0, T, hole, _ => (T, hole, false)
  | fuel + 1, T, hole, j =>
    match T j with
    | none => (T, hole, true)
    | some a =>
      if inRange hole (home a) j then shiftBack m home fuel T hole (nextSlot m j)
      else shiftBack m home fuel (update T hole (some a)) j (nextSlot m j)

/-- What a probe from `i` saw: occupied slots without a match, up to where it ended. -/
def Landing.Sees (m : Nat) (T : Nat → Option α) (hit : α → Bool) (i : Nat) : Landing → Prop
  | .hit j => (∃ a, T j = some a ∧ hit a = true) ∧ j < m ∧
      ∀ k < m, ahead m i k < ahead m i j → ∃ a, T k = some a ∧ hit a = false
  | .empty j => T j = none ∧ j < m ∧ ∀ k < m, ahead m i k < ahead m i j → ∃ a, T k = some a ∧ hit a = false
  | .lost => ∀ k < m, ∃ a, T k = some a ∧ hit a = false

theorem probe_sees (hit : α → Bool) {i : Nat} (inside : i < m) : (probe m T hit m i).Sees m T hit i := by
  -- on the turns left; `j` is the slot reached, with nothing before it
  have from_ : ∀ fuel j, j < m → (fuel = 0 ∨ ahead m i j + fuel = m) →
      (∀ k < m, (fuel = 0 ∨ ahead m i k < ahead m i j) → ∃ a, T k = some a ∧ hit a = false) →
      (probe m T hit fuel j).Sees m T hit i := by
    intro fuel
    induction fuel with
    | zero => exact fun j _ _ seen k bound => seen k bound (.inl rfl)
    | succ fuel ih =>
      intro j bound left seen
      have before : ∀ k < m, ahead m i k < ahead m i j → ∃ a, T k = some a ∧ hit a = false :=
        fun k inside closer => seen k inside (.inr closer)
      unfold probe
      cases slot : T j with
      | none => exact ⟨slot, bound, before⟩
      | some a =>
        dsimp only
        split
        next found => exact ⟨⟨a, slot, found⟩, bound, before⟩
        next other =>
          rw [Bool.not_eq_true] at other
          have upto : ∀ k < m, ahead m i k ≤ ahead m i j → ∃ b, T k = some b ∧ hit b = false := by
            intro k inside' closer
            rcases closer.eq_or_lt with same | less
            · obtain rfl := ahead_inj inside inside' bound same
              exact ⟨a, slot, other⟩
            · exact before k inside' less
          have total : ahead m i j + (fuel + 1) = m := left.resolve_left (by omega)
          by_cases round : nextSlot m j = i
          · -- the next slot is the first one again: every slot was seen
            have last : ahead m i j + 1 = m := by
              rw [nextSlot_eq bound] at round
              unfold ahead
              split_ifs at round ⊢ <;> omega
            obtain rfl : fuel = 0 := by omega
            exact ih (nextSlot m j) (nextSlot_lt bound) (.inl rfl) fun k inside' _ =>
              upto k inside' (by have := ahead_lt inside inside'; omega)
          · have step := ahead_next inside bound round
            refine ih (nextSlot m j) (nextSlot_lt bound) (.inr (by omega)) fun k inside' closer => ?_
            apply upto k inside'
            rcases closer with none | closer
            · have := ahead_lt inside inside'
              omega
            · omega
  exact from_ m i inside (.inr (by rw [ahead_self]; omega)) fun k bound closer => by
    rcases closer with none | less
    · omega
    · rw [ahead_self] at less
      omega

theorem Probing.probe_hit (table : Probing m home key T) {hit : α → Bool} {i : Nat} (bound : i < m) (here : T i = some a)
    (matches_ : ∀ b, Stored m T b → (hit b = true ↔ key b = key a)) : probe m T hit m (home a) = .hit i := by
  have stored : Stored m T a := ⟨i, bound, here⟩
  have start := table.homes a stored
  have own : hit a = true := (matches_ a stored).mpr rfl
  have sees := probe_sees (T := T) hit start
  cases landed : probe m T hit m (home a) with
  | hit j =>
    rw [landed] at sees
    obtain ⟨⟨b, there, same⟩, inside, -⟩ := sees
    rw [table.once j inside i bound b a there here ((matches_ b ⟨j, inside, there⟩).mp same)]
  | empty j =>
    rw [landed] at sees
    obtain ⟨empty, inside, before⟩ := sees
    rcases lt_trichotomy (ahead m (home a) j) (ahead m (home a) i) with first | same | past
    · exact absurd empty (table.reach i bound a here j inside first)
    · rw [ahead_inj start inside bound same, here] at empty
      cases empty
    · obtain ⟨b, there, other⟩ := before i bound past
      cases here.symm.trans there
      cases own.symm.trans other
  | lost =>
    rw [landed] at sees
    obtain ⟨b, there, other⟩ := sees i bound
    cases here.symm.trans there
    cases own.symm.trans other

theorem hit_stored {hit : α → Bool} {i j : Nat} (inside : i < m) (landed : probe m T hit m i = .hit j) :
    j < m ∧ ∃ a, T j = some a ∧ hit a = true := by
  have sees := probe_sees (T := T) hit inside
  rw [landed] at sees
  exact ⟨sees.2.1, sees.1⟩

theorem probe_empty {hit : α → Bool} {i e : Nat} (inside : i < m) (room : e < m) (free : T e = none)
    (absent : ∀ a, Stored m T a → hit a = false) : ∃ j, probe m T hit m i = .empty j := by
  have sees := probe_sees (T := T) hit inside
  cases landed : probe m T hit m i with
  | hit j =>
    obtain ⟨bound, b, there, matched⟩ := hit_stored inside landed
    cases matched.symm.trans (absent b ⟨j, bound, there⟩)
  | empty j => exact ⟨j, rfl⟩
  | lost =>
    rw [landed] at sees
    obtain ⟨b, there, -⟩ := sees e room
    cases free.symm.trans there

theorem probe_lost {hit : α → Bool} {i : Nat} (inside : i < m) (full : ∀ j < m, T j ≠ none)
    (absent : ∀ a, Stored m T a → hit a = false) : probe m T hit m i = .lost := by
  have sees := probe_sees (T := T) hit inside
  cases landed : probe m T hit m i with
  | hit j =>
    obtain ⟨bound, b, there, matched⟩ := hit_stored inside landed
    cases matched.symm.trans (absent b ⟨j, bound, there⟩)
  | empty j =>
    rw [landed] at sees
    exact absurd sees.1 (full j sees.2.1)
  | lost => rfl

theorem update_eq_some {i p : Nat} {slot : Option α} {b : α} :
    update T i slot p = some b ↔ (p = i ∧ slot = some b) ∨ (p ≠ i ∧ T p = some b) := by
  rw [update_apply]
  split <;> simp [*]

theorem stored_update {i : Nat} (inside : i < m) (free : T i = none) (a b : α) :
    Stored m (update T i (some a)) b ↔ b = a ∨ Stored m T b := by
  constructor
  · rintro ⟨j, bound, here⟩
    rcases update_eq_some.mp here with ⟨_, ⟨⟩⟩ | ⟨_, here⟩
    · exact .inl rfl
    · exact .inr ⟨j, bound, here⟩
  · rintro (rfl | ⟨j, bound, here⟩)
    · exact ⟨i, inside, update_self ..⟩
    refine ⟨j, bound, ?_⟩
    rw [update_of_ne, here]
    rintro rfl
    cases free.symm.trans here

theorem Probing.insert (table : Probing m home key T) {hit : α → Bool} {i : Nat} (start : home a < m)
    (landed : probe m T hit m (home a) = .empty i) (absent : ∀ b, Stored m T b → key b ≠ key a) :
    Probing m home key (update T i (some a)) ∧ i < m ∧ T i = none := by
  have sees := probe_sees (T := T) hit start
  rw [landed] at sees
  obtain ⟨free, inside, before⟩ := sees
  refine ⟨⟨?_, ?_, ?_⟩, inside, free⟩
  · intro b stored
    rcases (stored_update inside free a b).mp stored with rfl | old
    · exact start
    · exact table.homes b old
  · intro j bound b here k inside' closer
    by_cases new : k = i
    · rw [new, update_self]
      exact some_ne_none a
    rw [update_of_ne new]
    rcases update_eq_some.mp here with ⟨rfl, ⟨⟩⟩ | ⟨_, here⟩
    · obtain ⟨c, there, -⟩ := before k inside' closer
      rw [there]
      exact some_ne_none c
    · exact table.reach j bound b here k inside' closer
  · intro j bound k inside' b c here there same
    rcases update_eq_some.mp here with ⟨first, ⟨⟩⟩ | ⟨_, here⟩
    · rcases update_eq_some.mp there with ⟨second, _⟩ | ⟨_, there⟩
      · exact first.trans second.symm
      · exact absurd same.symm (absent c ⟨k, inside', there⟩)
    · rcases update_eq_some.mp there with ⟨_, ⟨⟩⟩ | ⟨_, there⟩
      · exact absurd same (absent b ⟨j, bound, here⟩)
      · exact table.once j bound k inside' b c here there same

/-- The table while a hole is moved: `T` with the hole emptied keeps its elements within reach, but for those past
slot `j` whose way leads over the hole. -/
structure Gap (m : Nat) (home : α → Nat) (key : α → κ) (T : Nat → Option α) (hole j : Nat) : Prop where
  holeLt : hole < m
  jLt : j < m
  homes : ∀ a, Stored m (update T hole none) a → home a < m
  reach : ∀ p < m, ∀ a, update T hole none p = some a → ∀ i < m, ahead m (home a) i < ahead m (home a) p →
    update T hole none i ≠ none ∨ (i = hole ∧ ahead m hole j ≤ ahead m hole p)
  once : ∀ i < m, ∀ j < m, ∀ a b, update T hole none i = some a → update T hole none j = some b →
    key a = key b → i = j

theorem inRange_iff {hole h j : Nat} (holeLt : hole < m) (homeLt : h < m) (jLt : j < m) (ne : hole ≠ j) :
    inRange hole h j = true ↔ ¬ahead m h hole < ahead m h j := by
  unfold inRange ahead
  split_ifs <;> simp only [Bool.and_eq_true, Bool.or_eq_true, decide_eq_true_eq] <;> omega

theorem Probing.gap (table : Probing m home key T) {hole : Nat} (holeLt : hole < m) (two : 1 < m) :
    Gap m home key T hole (nextSlot m hole) := by
  have old : ∀ p a, update T hole none p = some a → p ≠ hole ∧ T p = some a := by
    intro p a here
    simpa using update_eq_some.mp here
  refine ⟨holeLt, nextSlot_lt holeLt, ?_, ?_, ?_⟩
  · rintro a ⟨p, bound, here⟩
    exact table.homes a ⟨p, bound, (old p a here).2⟩
  · intro p bound a here i inside closer
    obtain ⟨other, here⟩ := old p a here
    by_cases same : i = hole
    · refine .inr ⟨same, ?_⟩
      rw [ahead_next_self holeLt two]
      exact ahead_pos holeLt other.symm
    · rw [update_of_ne same]
      exact .inl (table.reach p bound a here i inside closer)
  · intro i inside j bound a b here there same
    exact table.once i inside j bound a b (old i a here).2 (old j b there).2 same

theorem Gap.close {hole j : Nat} (gap : Gap m home key T hole j) (ne : hole ≠ j) (free : T j = none) :
    Probing m home key (update T hole none) := by
  refine ⟨gap.homes, ?_, gap.once⟩
  intro p bound a here i inside closer
  rcases gap.reach p bound a here i inside closer with kept | ⟨rfl, past⟩
  · exact kept
  -- the way to the element leads over the hole and then over `j`, which is empty
  have homeLt := gap.homes a ⟨p, bound, here⟩
  have empty : update T i none j = none := by rw [update_of_ne ne.symm, free]
  rcases past.eq_or_lt with same | less
  · rw [← ahead_inj gap.holeLt gap.jLt bound same, empty] at here
    cases here
  have over_j := ahead_between homeLt inside gap.jLt bound closer less
  rcases gap.reach p bound a here j gap.jLt over_j with kept | ⟨same, -⟩
  · exact absurd empty kept
  · exact absurd same.symm ne

theorem Gap.stay {hole j : Nat} (gap : Gap m home key T hole j) (ne : hole ≠ j) (here : T j = some a)
    (stays : inRange hole (home a) j = true) (more : nextSlot m j ≠ hole) : Gap m home key T hole (nextSlot m j) := by
  have there : update T hole none j = some a := by rw [update_of_ne ne.symm, here]
  have homeLt := gap.homes a ⟨j, gap.jLt, there⟩
  refine ⟨gap.holeLt, nextSlot_lt gap.jLt, gap.homes, ?_, gap.once⟩
  intro p bound b at_ i inside closer
  rcases gap.reach p bound b at_ i inside closer with kept | ⟨rfl, past⟩
  · exact .inl kept
  refine .inr ⟨rfl, ?_⟩
  rw [ahead_next gap.holeLt gap.jLt more]
  rcases past.eq_or_lt with same | less
  · obtain rfl := ahead_inj gap.holeLt gap.jLt bound same
    cases there.symm.trans at_
    exact absurd closer ((inRange_iff gap.holeLt homeLt bound ne).mp stays)
  · exact less

theorem Gap.move {hole j : Nat} (gap : Gap m home key T hole j) (ne : hole ≠ j) (here : T j = some a)
    (moves : inRange hole (home a) j = false) (two : 1 < m) :
    Gap m home key (update T hole (some a)) j (nextSlot m j) ∧ ∀ b, Stored m (update (update T hole (some a)) j none) b ↔
        Stored m (update T hole none) b := by
  have there : update T hole none j = some a := by rw [update_of_ne ne.symm, here]
  have homeLt := gap.homes a ⟨j, gap.jLt, there⟩
  have crossed : ahead m (home a) hole < ahead m (home a) j := by
    by_contra past
    rw [(inRange_iff gap.holeLt homeLt gap.jLt ne).mpr past] at moves
    cases moves
  -- the slots after the move: the hole is filled, `j` is empty, the others are as they were
  have atHole : update (update T hole (some a)) j none hole = some a := by rw [update_of_ne ne, update_self]
  have others : ∀ p, p ≠ hole → p ≠ j → update (update T hole (some a)) j none p = update T hole none p := by
    intro p first second
    rw [update_of_ne second, update_of_ne first, update_of_ne first]
  have cases_ : ∀ p b, update (update T hole (some a)) j none p = some b →
      (p = hole ∧ b = a) ∨ (p ≠ hole ∧ p ≠ j ∧ update T hole none p = some b) := by
    intro p b at_
    rcases update_eq_some.mp at_ with ⟨_, ⟨⟩⟩ | ⟨second, at_⟩
    rcases update_eq_some.mp at_ with ⟨first, ⟨⟩⟩ | ⟨first, at_⟩
    · exact .inl ⟨first, rfl⟩
    · exact .inr ⟨first, second, update_eq_some.mpr (.inr ⟨first, at_⟩)⟩
  have same : ∀ b, Stored m (update (update T hole (some a)) j none) b ↔
      Stored m (update T hole none) b := by
    intro b
    constructor
    · rintro ⟨p, bound, at_⟩
      rcases cases_ p b at_ with ⟨-, rfl⟩ | ⟨-, -, at_⟩
      · exact ⟨j, gap.jLt, there⟩
      · exact ⟨p, bound, at_⟩
    · rintro ⟨p, bound, at_⟩
      by_cases second : p = j
      · rw [second, there] at at_
        obtain rfl := some.inj at_
        exact ⟨hole, gap.holeLt, atHole⟩
      · have first : p ≠ hole := by
          rintro rfl
          rw [update_self] at at_
          cases at_
        exact ⟨p, bound, (others p first second).trans at_⟩
  refine ⟨⟨gap.jLt, nextSlot_lt gap.jLt, fun b stored => gap.homes b ((same b).mp stored), ?_, ?_⟩, same⟩
  · intro p bound b at_ i inside closer
    by_cases second : i = j
    · refine .inr ⟨second, ?_⟩
      rw [ahead_next_self gap.jLt two]
      apply ahead_pos gap.jLt
      rintro rfl
      rw [update_self] at at_
      cases at_
    · left
      by_cases first : i = hole
      · rw [first, atHole]
        exact some_ne_none a
      rw [others i first second]
      have reached : ∀ p' < m, update T hole none p' = some b → ahead m (home b) i < ahead m (home b) p' →
          update T hole none i ≠ none := by
        intro p' bound' at' closer'
        exact (gap.reach p' bound' b at' i inside closer').resolve_right fun over_hole => first over_hole.1
      rcases cases_ p b at_ with ⟨rfl, rfl⟩ | ⟨-, -, at_⟩
      · exact reached j gap.jLt there (closer.trans crossed)
      · exact reached p bound at_ closer
  · intro p bound p' bound' b c at_ at' equal
    rcases cases_ p b at_ with ⟨rfl, rfl⟩ | ⟨-, left', old⟩
    · rcases cases_ p' c at' with ⟨rfl, -⟩ | ⟨-, right', old'⟩
      · rfl
      · exact absurd (gap.once j gap.jLt p' bound' b c there old' equal).symm right'
    · rcases cases_ p' c at' with ⟨rfl, rfl⟩ | ⟨-, -, old'⟩
      · exact absurd (gap.once p bound j gap.jLt b c old there equal) left'
      · exact gap.once p bound p' bound' b c old old' equal

theorem Gap.shiftBack {hole j e : Nat} (gap : Gap m home key T hole j) (fuel : Nat) (ne : hole ≠ j) (room : e < m)
    (free : T e = none) (apart : e ≠ hole) (first : ahead m hole j ≤ ahead m hole e) (enough : ahead m j e < fuel) :
    (shiftBack m home fuel T hole j).2.2 = true ∧ Probing m home key
        (update (shiftBack m home fuel T hole j).1 (shiftBack m home fuel T hole j).2.1 none) ∧
      ∀ b, Stored m (update (shiftBack m home fuel T hole j).1 (shiftBack m home fuel T hole j).2.1 none) b ↔
        Stored m (update T hole none) b := by
  induction fuel generalizing T hole j with
  | zero => omega
  | succ fuel ih =>
    unfold Base.shiftBack
    cases slot : T j with
    | none => exact ⟨rfl, gap.close ne slot, fun _ => Iff.rfl⟩
    | some a =>
      have later : j ≠ e := by
        rintro rfl
        cases free.symm.trans slot
      have two : 1 < m := by
        have := gap.jLt
        omega
      have shorter := ahead_from_next gap.jLt room later
      dsimp only
      split
      next stays =>
        have more : nextSlot m j ≠ hole := by
          intro round
          have total := ahead_add gap.holeLt gap.jLt room first
          have := ahead_lt gap.holeLt room
          rw [round] at shorter
          omega
        refine ih (gap.stay ne slot stays more) more.symm free apart ?_ (by omega)
        rw [ahead_next gap.holeLt gap.jLt more]
        have total := ahead_add gap.holeLt gap.jLt room first
        omega
      next moves =>
        rw [Bool.not_eq_true] at moves
        obtain ⟨moved, same⟩ := gap.move ne slot moves two
        have further : nextSlot m j ≠ j := by
          intro still
          have := ahead_next_self gap.jLt two
          rw [still, ahead_self] at this
          omega
        have still_free : update T hole (some a) e = none := by rw [update_of_ne apart, free]
        obtain ⟨ended, table, kept⟩ := ih moved further.symm still_free later.symm
          (by rw [ahead_next_self gap.jLt two]; omega) (by omega)
        exact ⟨ended, table, fun b => (kept b).trans (same b)⟩

theorem Probing.delete (table : Probing m home key T) {i e : Nat} (bound : i < m) (here : T i = some a) (room : e < m)
    (free : T e = none) :
    (shiftBack m home m T i (nextSlot m i)).2.2 = true ∧
      Probing m home key (update (shiftBack m home m T i (nextSlot m i)).1
        (shiftBack m home m T i (nextSlot m i)).2.1 none) ∧ ∀ b, Stored m (update (shiftBack m home m T i (nextSlot m i)).1
        (shiftBack m home m T i (nextSlot m i)).2.1 none) b ↔ Stored m T b ∧ b ≠ a := by
  have apart : e ≠ i := by
    rintro rfl
    cases free.symm.trans here
  have two : 1 < m := by omega
  have first := ahead_next_self bound two
  have further : i ≠ nextSlot m i := by
    intro still
    rw [← still, ahead_self] at first
    omega
  have shorter := ahead_from_next bound room apart.symm
  obtain ⟨ended, deleted, kept⟩ := (table.gap bound two).shiftBack m further room free apart
    (by rw [first]; omega) (ahead_lt (nextSlot_lt bound) room)
  refine ⟨ended, deleted, fun b => (kept b).trans ?_⟩
  constructor
  · rintro ⟨p, inside, at_⟩
    rcases update_eq_some.mp at_ with ⟨_, ⟨⟩⟩ | ⟨same, at_⟩
    refine ⟨⟨p, inside, at_⟩, ?_⟩
    rintro rfl
    exact same (table.once p inside i bound b b at_ here rfl)
  · rintro ⟨⟨p, inside, at_⟩, other⟩
    refine ⟨p, inside, ?_⟩
    rw [update_of_ne, at_]
    rintro rfl
    exact other (some.inj (at_.symm.trans here))

theorem Probing.room (table : Probing m home key T) (keys : Finset κ) (all : ∀ a, Stored m T a → key a ∈ keys)
    (load : keys.card < m) : ∃ e < m, T e = none := by
  by_contra full
  push Not at full
  have some_ : ∀ i : Fin m, ∃ a, T i = some a := fun i => ne_none_iff_exists'.mp (full i i.isLt)
  choose at_ here using some_
  have inside : ∀ i ∈ (Finset.univ : Finset (Fin m)), key (at_ i) ∈ keys := fun i _ => all _ ⟨i, i.isLt, here i⟩
  have apart : Set.InjOn (fun i => key (at_ i)) (Finset.univ : Finset (Fin m)) := by
    intro i _ j _ same
    exact Fin.ext (table.once i i.isLt j j.isLt _ _ (here i) (here j) same)
  have := Finset.card_le_card_of_injOn _ inside apart
  rw [Finset.card_univ, Fintype.card_fin] at this
  omega

theorem full_of_stored {keys : Finset κ}
    (all : ∀ k ∈ keys, ∃ a, Stored m T a ∧ key a = k) (load : m ≤ keys.card) : ∀ i < m, T i ≠ none := by
  have stored : ∀ k : keys, ∃ i : Fin m, ∃ a, T i = some a ∧ key a = k := by
    rintro ⟨k, member⟩
    obtain ⟨a, ⟨i, bound, here⟩, same⟩ := all k member
    exact ⟨⟨i, bound⟩, a, here, same⟩
  choose slot at_ here same using stored
  have apart : Injective slot := by
    intro k k' equal
    have := here k
    rw [equal, here k'] at this
    have equal' := some.inj this
    exact Subtype.ext ((same k).symm.trans (equal' ▸ same k'))
  have onto : Surjective slot := by
    refine ((Fintype.bijective_iff_injective_and_card slot).mpr ⟨apart, ?_⟩).2
    have := Fintype.card_le_of_injective slot apart
    rw [Fintype.card_coe, Fintype.card_fin] at this ⊢
    omega
  intro i bound
  obtain ⟨k, eq⟩ := onto ⟨i, bound⟩
  have := here k
  rw [eq] at this
  rw [this]
  exact some_ne_none _

end Table

end TradingEngine.Base
