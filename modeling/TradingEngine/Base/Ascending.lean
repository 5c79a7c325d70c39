import TradingEngine.Base.Run

/-!
# Rows in ascending order of a key

A list whose keys strictly ascend is a finite map.
-/

namespace TradingEngine.Base

open List

variable {α κ : Type*}

def bisect (below : α → Bool) (xs : List α) : Nat → Nat → Nat → Nat
  | 0, lo, _ => lo
  | fuel + 1, lo, hi =>
    if lo < hi then
      let mid := lo + (hi - lo) / 2
      if xs[mid]?.any below then bisect below xs fuel (mid + 1) hi else bisect below xs fuel lo mid
    else lo

/-- The first index whose row does not have the property. -/
def firstNot (below : α → Bool) (xs : List α) : Nat := bisect below xs xs.length 0 xs.length

section Bisect

variable {below : α → Bool} {left right : List α}

theorem any_getElem?_append (all : ∀ x ∈ left, below x) (none : ∀ x ∈ right, ¬ below x) (i : Nat) :
    (left ++ right)[i]?.any below = decide (i < left.length) := by
  rcases Nat.lt_or_ge i left.length with lt | ge
  · rw [getElem?_append_left lt, getElem?_eq_getElem lt]
    simpa [lt] using all _ (getElem_mem lt)
  rw [getElem?_append_right ge, decide_eq_false (by omega)]
  cases row : right[i - left.length]? with
  | none => rfl
  | some x => simpa using none x (mem_of_getElem? row)

theorem bisect_eq (all : ∀ x ∈ left, below x) (none : ∀ x ∈ right, ¬ below x) {fuel lo hi : Nat}
    (enough : hi - lo ≤ fuel) (low : lo ≤ left.length) (high : left.length ≤ hi) :
    bisect below (left ++ right) fuel lo hi = left.length := by
  induction fuel generalizing lo hi with
  | zero => rw [bisect]; omega
  | succ fuel ih =>
    rw [bisect]
    by_cases more : lo < hi
    · simp only [more, if_true, any_getElem?_append all none, decide_eq_true_eq]
      split
      · exact ih (by omega) (by omega) high
      · exact ih (by omega) low (by omega)
    · rw [if_neg more]
      omega

theorem firstNot_append (all : ∀ x ∈ left, below x) (none : ∀ x ∈ right, ¬ below x) :
    firstNot below (left ++ right) = left.length := bisect_eq all none (by simp) (Nat.zero_le _) (by simp)

end Bisect

variable [LinearOrder κ] {key : α → κ} {xs ys : List α} {k : κ}

def Ascending (key : α → κ) (xs : List α) : Prop := xs.Pairwise fun a b => key a < key b

instance Ascending.decidable (key : α → κ) (xs : List α) : Decidable (Ascending key xs) :=
  inferInstanceAs (Decidable (xs.Pairwise fun a b => key a < key b))

theorem Ascending.nil (key : α → κ) : Ascending key [] := List.Pairwise.nil

def lookup (key : α → κ) (xs : List α) (k : κ) : Option α := xs.find? fun x => decide (key x = k)

theorem lookup_key {x : α} (found : x ∈ lookup key xs k) : key x = k := by
  simpa using find?_some found

theorem mem_of_lookup {x : α} (found : x ∈ lookup key xs k) : x ∈ xs := mem_of_find?_eq_some found

/-- The place of one key: smaller keys to its left, greater ones to its right, and the row it has, if any. -/
structure Spot (key : α → κ) (k : κ) (left : List α) (row : Option α) (right : List α) : Prop where
  less : ∀ x ∈ left, key x < k
  own : ∀ x ∈ row, key x = k
  greater : ∀ x ∈ right, k < key x

theorem Ascending.spot (ascending : Ascending key xs) (k : κ) :
    ∃ left row right, xs = left ++ (row.toList ++ right) ∧ Spot key k left row right := by
  induction xs with
  | nil => exact ⟨[], none, [], rfl, by simp, by simp, by simp⟩
  | cons a rest ih =>
    obtain ⟨later, ascending⟩ := pairwise_cons.mp ascending
    rcases lt_trichotomy (key a) k with lt | eq | gt
    · obtain ⟨left, row, right, rfl, less, own, greater⟩ := ih ascending
      exact ⟨a :: left, row, right, rfl, by simpa [lt] using less, own, greater⟩
    · exact ⟨[], some a, rest, rfl, by simp, by simpa using eq, fun x member => eq ▸ later x member⟩
    refine ⟨[], none, a :: rest, rfl, by simp, by simp, fun x member => ?_⟩
    rcases mem_cons.mp member with rfl | member
    · exact gt
    · exact gt.trans (later x member)

theorem Ascending.lookup_mem (ascending : Ascending key xs) {x : α} (member : x ∈ xs) :
    lookup key xs (key x) = some x := by
  induction xs with
  | nil => exact absurd member (by simp)
  | cons a rest ih =>
    obtain ⟨later, ascending⟩ := pairwise_cons.mp ascending
    rcases mem_cons.mp member with rfl | member
    · simp [lookup]
    · have ne : key a ≠ key x := (later x member).ne
      simpa [lookup, ne] using ih ascending member

theorem Ascending.eq_of_mem_iff (first : Ascending key xs) (second : Ascending key ys)
    (same : ∀ x, x ∈ xs ↔ x ∈ ys) : xs = ys := by
  have irrefl : Std.Irrefl fun a b : α => key a < key b := ⟨fun a => lt_irrefl (key a)⟩
  have antisymm : Std.Antisymm fun a b : α => key a < key b := ⟨fun a b lt gt => absurd lt gt.asymm⟩
  exact List.Pairwise.eq_of_mem_iff first second same

section Spot

variable {left right : List α} {row new : Option α}

section

variable (spot : Spot key k left row right)

include spot

theorem Spot.replace (own : ∀ x ∈ new, key x = k) :
    Spot key k left new right := ⟨spot.less, own, spot.greater⟩

theorem Spot.ascending (own : ∀ x ∈ new, key x = k) (ascending : Ascending key (left ++ (row.toList ++ right))) :
    Ascending key (left ++ (new.toList ++ right)) := by
  unfold Ascending at ascending ⊢
  rw [pairwise_append, pairwise_append] at ascending ⊢
  obtain ⟨before, ⟨_, after, _⟩, _⟩ := ascending
  refine ⟨before, ⟨?_, after, fun a first b second => ?_⟩, fun a first b second => ?_⟩
  · cases new <;> simp
  · rw [own a (by simpa using first)]
    exact spot.greater b second
  rcases mem_append.mp second with second | second
  · rw [own b (by simpa using second)]
    exact spot.less a first
  · exact (spot.less a first).trans (spot.greater b second)

theorem Spot.mem_self {x : α} (same : key x = k) : x ∈ left ++ (row.toList ++ right) ↔ x ∈ row := by
  have before : x ∉ left := fun member => absurd same (spot.less x member).ne
  have after : x ∉ right := fun member => absurd same (spot.greater x member).ne'
  simp [before, after]

theorem Spot.mem_other {x : α} (ne : key x ≠ k) : x ∈ left ++ (row.toList ++ right) ↔ x ∈ left ++ right := by
  have other : x ∉ row.toList := fun member => ne (spot.own x (by simpa using member))
  rw [mem_append, mem_append, mem_append, or_iff_right other]

theorem Spot.firstNot_lt : firstNot (fun x => decide (key x < k)) (left ++ (row.toList ++ right)) = left.length := by
  refine firstNot_append (fun x member => by simpa using spot.less x member) fun x member => ?_
  rcases mem_append.mp member with member | member
  · simp [spot.own x (by simpa using member)]
  · simpa using (spot.greater x member).le

theorem Spot.head : (left ++ (row.toList ++ right))[left.length]?.filter (fun x => decide (key x = k)) = row := by
  rw [getElem?_append_right (Nat.le_refl _), Nat.sub_self]
  cases row with
  | some x => simp [spot.own x rfl]
  | none =>
    cases right with
    | nil => rfl
    | cons b rest => simp [(spot.greater b (by simp)).ne']

theorem Spot.lookup_self : lookup key (left ++ (row.toList ++ right)) k = row := by
  have before : left.find? (fun x => decide (key x = k)) = none :=
    find?_eq_none.mpr fun x member => by simpa using (spot.less x member).ne
  have after : right.find? (fun x => decide (key x = k)) = none :=
    find?_eq_none.mpr fun x member => by simpa using (spot.greater x member).ne'
  rw [lookup, find?_append, find?_append, before, after]
  cases row with
  | none => rfl
  | some x => simp [spot.own x rfl]

theorem Spot.lookup_other (own : ∀ x ∈ new, key x = k) {k' : κ} (ne : k' ≠ k) :
    lookup key (left ++ (new.toList ++ right)) k' = lookup key (left ++ (row.toList ++ right)) k' := by
  have skip : ∀ row : Option α, (∀ x ∈ row, key x = k) → row.toList.find? (fun x => decide (key x = k')) = none := by
    intro row own
    refine find?_eq_none.mpr fun x member => ?_
    rw [own x (by simpa using member)]
    simpa using ne.symm
  unfold lookup
  rw [find?_append, find?_append, find?_append, find?_append, skip new own, skip row spot.own]

end

end Spot

theorem insertIdx_middle (left right : List α) (x : α) :
    (left ++ right).insertIdx left.length x = left ++ x :: right := by
  induction left with
  | nil => rfl
  | cons a left ih => simp [ih]

variable {M : Type*}

/-- The sum of a weight over the rows whose key is not above a bound. -/
def sumTo [AddCommMonoid M] (key : α → κ) (w : α → M) (xs : List α) (bound : κ) : M :=
  ((xs.filter fun x => decide (key x ≤ bound)).map w).sum

section SumTo

variable [AddCommMonoid M] {w : α → M} {bound : κ}

theorem sumTo_append : sumTo key w (xs ++ ys) bound = sumTo key w xs bound + sumTo key w ys bound := by
  simp [sumTo]

theorem sumTo_all (all : ∀ x ∈ xs, key x ≤ bound) : sumTo key w xs bound = (xs.map w).sum := by
  unfold sumTo
  rw [filter_eq_self.mpr fun x member => by simpa using all x member]

theorem sumTo_none (none : ∀ x ∈ xs, bound < key x) : sumTo key w xs bound = 0 := by
  unfold sumTo
  rw [filter_eq_nil_iff.mpr fun x member => by simpa using none x member]
  rfl

end SumTo

end TradingEngine.Base
