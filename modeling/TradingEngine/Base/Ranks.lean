import Mathlib

/-!
# Ranks without a sort

`ranked` lists values by rank.
-/

namespace TradingEngine.Base

open List

variable {α : Type*} [LinearOrder α] {xs ys left right : List α}

def ranked (xs : List α) : List α := xs.insertionSort (· ≤ ·)

theorem ranked_perm (xs : List α) : (ranked xs).Perm xs := perm_insertionSort _ xs

theorem ranked_ascends (xs : List α) : (ranked xs).Pairwise (· ≤ ·) := pairwise_insertionSort _ xs

@[simp] theorem ranked_length (xs : List α) : (ranked xs).length = xs.length := (ranked_perm xs).length_eq

@[simp] theorem mem_ranked {a : α} : a ∈ ranked xs ↔ a ∈ xs := (ranked_perm xs).mem_iff

theorem ranked_unique (ascends : ys.Pairwise (· ≤ ·)) (perm : ys.Perm xs) : ranked xs = ys :=
  ((ranked_perm xs).trans perm.symm).eq_of_pairwise' (ranked_ascends xs) ascends

theorem ranked_congr (perm : xs.Perm ys) : ranked xs = ranked ys :=
  ranked_unique (ranked_ascends ys) ((ranked_perm ys).trans perm.symm)

theorem ranked_append (apart : ∀ a ∈ left, ∀ b ∈ right, a ≤ b) : ranked (left ++ right) = ranked left ++ ranked right := by
  refine ranked_unique (pairwise_append.mpr ⟨ranked_ascends left, ranked_ascends right, ?_⟩)
    ((ranked_perm left).append (ranked_perm right))
  intro a first b second
  exact apart a (mem_ranked.mp first) b (mem_ranked.mp second)

theorem ranked_cons {a : α} (least : ∀ b ∈ right, a ≤ b) : ranked (a :: right) = a :: ranked right := by
  have apart : ∀ c ∈ [a], ∀ b ∈ right, c ≤ b := by
    intro c member b there
    rw [mem_singleton.mp member]
    exact least b there
  exact ranked_append apart

/-- What a selection promises: the value at the index is the one a sort would put there, with none above it to the
left and none below it to the right. -/
def Selects (select : List α → Nat → List α) : Prop :=
  ∀ xs i, i < xs.length → ∃ left pivot right, select xs i = left ++ pivot :: right ∧ left.length = i ∧
    (left ++ pivot :: right).Perm xs ∧ (∀ a ∈ left, a ≤ pivot) ∧ ∀ b ∈ right, pivot ≤ b

theorem Selects.ranks {select : List α → Nat → List α} (selects : Selects select) (xs : List α) (i : Nat)
    (lt : i < xs.length) :
    ∃ left pivot right, select xs i = left ++ pivot :: right ∧ left.length = i ∧ (left ++ pivot :: right).Perm xs ∧
      ranked xs = ranked left ++ pivot :: ranked right ∧
      ranked (pivot :: right) = pivot :: ranked right ∧ ranked (left ++ [pivot]) = ranked left ++ [pivot] := by
  obtain ⟨left, pivot, right, eq, length, perm, below, above⟩ := selects xs i lt
  have whole : ranked (left ++ pivot :: right) = ranked left ++ ranked (pivot :: right) := by
    refine ranked_append fun a member b there => ?_
    rcases mem_cons.mp there with rfl | there
    · exact below a member
    · exact (below a member).trans (above b there)
  refine ⟨left, pivot, right, eq, length, perm, ?_, ranked_cons above, ?_⟩
  · rw [← ranked_cons above, ← whole]
    exact ranked_congr perm.symm
  · rw [ranked_append fun a member b there => by rw [mem_singleton.mp there]; exact below a member]
    rfl

theorem selects_ranked : Selects fun (xs : List α) _ => ranked xs := by
  intro xs i lt
  have inside : i < (ranked xs).length := by rwa [ranked_length]
  have parts : ranked xs = (ranked xs).take i ++ (ranked xs)[i] :: (ranked xs).drop (i + 1) := by
    rw [getElem_cons_drop, take_append_drop]
  have ascends := ranked_ascends xs
  rw [parts, pairwise_append, pairwise_cons] at ascends
  obtain ⟨-, ⟨above, -⟩, apart⟩ := ascends
  refine ⟨_, _, _, parts, by rw [length_take]; omega, ?_, fun a member => apart a member _ mem_cons_self, above⟩
  rw [← parts]
  exact ranked_perm xs

section Chunks

variable {β : Type*} {zs : List β}

/-- Cut off `size` values as often as told; the last chunk takes what is left. -/
def chunks (size : Nat) : Nat → List β → List (List β)
  | 0, zs => [zs]
  | cuts + 1, zs => zs.take size :: chunks size cuts (zs.drop size)

theorem chunks_length (size cuts : Nat) (zs : List β) : (chunks size cuts zs).length = cuts + 1 := by
  induction cuts generalizing zs with
  | zero => rfl
  | succ cuts ih => rw [chunks, length_cons, ih]

theorem chunks_related {γ : Type*} {R : β → γ → Prop} {size cuts : Nat} {ws : List γ} (related : List.Forall₂ R zs ws) :
    List.Forall₂ (List.Forall₂ R) (chunks size cuts zs) (chunks size cuts ws) := by
  induction cuts generalizing zs ws with
  | zero => exact .cons related .nil
  | succ cuts ih => exact .cons (forall₂_take size related) (ih (forall₂_drop size related))

theorem mem_of_mem_chunks {size cuts : Nat} {chunk : List β} (member : chunk ∈ chunks size cuts zs) {a : β}
    (inside : a ∈ chunk) : a ∈ zs := by
  induction cuts generalizing zs with
  | zero =>
    rw [chunks, mem_singleton] at member
    rwa [member] at inside
  | succ cuts ih =>
    rcases mem_cons.mp member with rfl | member
    · exact mem_of_mem_take inside
    · exact mem_of_mem_drop (ih member)

theorem chunks_nonempty {size cuts : Nat} (positive : 0 < size) (enough : cuts * size < zs.length)
    {chunk : List β} (member : chunk ∈ chunks size cuts zs) : chunk ≠ [] := by
  induction cuts generalizing zs with
  | zero =>
    rw [chunks, mem_singleton] at member
    subst member
    intro nil
    simp [nil] at enough
  | succ cuts ih =>
    rw [Nat.succ_mul] at enough
    rcases mem_cons.mp member with rfl | member
    · intro nil
      have none := congrArg length nil
      rw [length_take, length_nil] at none
      omega
    · exact ih (by rw [length_drop]; omega) member

end Chunks

theorem getElem_le_iff_lt_countP (ascends : xs.Pairwise (· ≤ ·)) {k : Nat} (lt : k < xs.length) (t : α) :
    xs[k] ≤ t ↔ k < xs.countP (· ≤ t) := by
  induction xs generalizing k with
  | nil => exact absurd lt (Nat.not_lt_zero k)
  | cons a rest ih =>
    obtain ⟨least, ascends⟩ := pairwise_cons.mp ascends
    by_cases le : a ≤ t
    · rw [countP_cons_of_pos (by simpa using le)]
      cases k with
      | zero => simpa using le
      | succ k => simpa using ih ascends (by simpa using lt)
    · have none : rest.countP (· ≤ t) = 0 :=
        countP_eq_zero.mpr fun b member small => le ((least b member).trans (by simpa using small))
      rw [countP_cons_of_neg (by simpa using le), none]
      refine iff_of_false (fun small => le ?_) (Nat.not_lt_zero k)
      cases k with
      | zero => exact small
      | succ k => exact (least _ (getElem_mem (by simpa using lt))).trans small

theorem countP_le_of_forall₂ (le : List.Forall₂ (· ≤ ·) xs ys) (t : α) : ys.countP (· ≤ t) ≤ xs.countP (· ≤ t) := by
  induction le with
  | nil => exact Nat.le_refl _
  | @cons a b _ _ first _ ih =>
    by_cases small : b ≤ t
    · rw [countP_cons_of_pos (by simpa using small), countP_cons_of_pos (by simpa using first.trans small)]
      exact Nat.succ_le_succ ih
    · rw [countP_cons_of_neg (by simpa using small)]
      exact ih.trans ((sublist_cons_self a _).countP_le)

theorem ranked_mono (le : List.Forall₂ (· ≤ ·) xs ys) : List.Forall₂ (· ≤ ·) (ranked xs) (ranked ys) := by
  have length : xs.length = ys.length := le.length_eq
  refine forall₂_iff_get.mpr ⟨by simp [length], fun k first second => ?_⟩
  have small : k < (ranked ys).countP (· ≤ (ranked ys)[k]) :=
    (getElem_le_iff_lt_countP (ranked_ascends ys) second _).mp (le_refl _)
  refine (getElem_le_iff_lt_countP (ranked_ascends xs) first _).mpr ?_
  rw [(ranked_perm xs).countP_eq]
  rw [(ranked_perm ys).countP_eq] at small
  exact small.trans_le (countP_le_of_forall₂ le _)

end TradingEngine.Base
