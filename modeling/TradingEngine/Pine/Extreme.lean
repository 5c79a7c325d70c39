import TradingEngine.Base.Ascending
import TradingEngine.Base.Peaks

/-!
# The extreme of a sliding window

A deque of the values that no later one reaches, in a ring of cells. Counters are 32-bit words.
-/

namespace TradingEngine.Pine

open Base Function List

variable {α : Type*} [LinearOrder α]

structure MonoHdr where
  n : Nat
  front : Nat
  count : Nat

abbrev MonoCell := Stamped

def u32Size : Nat := 2 ^ 32

def word (n : Nat) : Nat := n % u32Size

def wrappingSub (a b : Nat) : Nat := word (a + u32Size - b)

def dominated (max : Bool) (b v : α) : Prop := if max then b ≤ v else b ≥ v

instance (max : Bool) (b v : α) : Decidable (dominated max b v) :=
  inferInstanceAs (Decidable (if max then b ≤ v else b ≥ v))

def dropBack (max : Bool) (cap : Nat) (q : Nat → MonoCell α) (front : Nat) (v : α) : Nat → Nat
  | 0 => 0
  | count + 1 =>
    if dominated max (q (word (front + count) % cap)).v v then dropBack max cap q front v count else count + 1

def nextFront (cap front : Nat) : Nat := if word (front + 1) = cap then 0 else word (front + 1)

def evict (cap : Nat) (q : Nat → MonoCell α) (n : Nat) : Nat → Nat → Nat × Nat
  | front, 0 => (front, 0)
  | front, count + 1 =>
    if wrappingSub n (q front).ix > cap then evict cap q n (nextFront cap front) count else (front, count + 1)

def makeRoom (cap front count : Nat) : Nat × Nat := if count = cap then (nextFront cap front, count - 1) else (front, count)

/-- The length of the slice is cast to a word. -/
def monoPush (max : Bool) (qLen : Nat) (s : MonoHdr × (Nat → MonoCell α)) (v : α) : MonoHdr × (Nat → MonoCell α) :=
  let cap := word qLen
  let room := makeRoom cap s.1.front (dropBack max cap s.2 s.1.front v s.1.count)
  let q := update s.2 (word (room.1 + room.2) % cap) ⟨v, s.1.n⟩
  let n := word (s.1.n + 1)
  let left := evict cap q n room.1 (room.2 + 1)
  (⟨n, left.1, left.2⟩, q)

def monoQuery (qLen : Nat) (h : MonoHdr) (q : Nat → MonoCell α) (len : Nat) : Option (α × Nat) :=
  let cap := word qLen
  if h.n < len ∨ h.count = 0 then none
  else
    let lo := firstNot (fun c => decide (h.n - c.ix > len)) (RingBuffer.contents cap ⟨q, h.front, h.count⟩)
    let c := q (word (h.front + lo) % cap)
    some (c.v, h.n - 1 - c.ix)

instance (max : Bool) : Std.Total (dominated (α := α) max) :=
  ⟨fun a b => by cases max <;> simp [dominated, le_total]⟩

instance (max : Bool) : IsTrans α (dominated max) := by
  refine ⟨fun a b c first second => ?_⟩
  cases max
  · exact le_trans (α := α) second first
  · exact le_trans (α := α) first second

variable {max : Bool} {cap front count n : Nat} {q : Nat → MonoCell α} {v : α}

/-- The cells from the front on. -/
abbrev deque (cap : Nat) (q : Nat → MonoCell α) (front count : Nat) : List (MonoCell α) :=
  RingBuffer.contents cap ⟨q, front, count⟩

omit [LinearOrder α] in
theorem deque_succ (cap : Nat) (q : Nat → MonoCell α) (front count : Nat) :
    deque cap q front (count + 1) = deque cap q front count ++ [q ((front + count) % cap)] := by
  simp [deque, RingBuffer.contents, range_succ]

theorem word_eq (small : n < u32Size) : word n = n := Nat.mod_eq_of_lt small

theorem nextFront_eq (inside : front < cap) (small : cap < u32Size) : nextFront cap front = (front + 1) % cap := by
  unfold nextFront
  rw [word_eq (by omega)]
  split
  · simp_all
  · exact (Nat.mod_eq_of_lt (by omega)).symm

omit [LinearOrder α] in
theorem deque_next (q : Nat → MonoCell α) (count : Nat) (inside : front < cap) (small : cap < u32Size) :
    deque cap q front (count + 1) = q front :: deque cap q (nextFront cap front) count ∧ nextFront cap front < cap ∧
      nextFront cap front ≤ front + 1 := by
  rw [nextFront_eq inside small]
  obtain ⟨listed, next, -⟩ := RingBuffer.pop_contents (r := ⟨q, front, count + 1⟩) inside rfl
  exact ⟨listed, next, Nat.mod_le _ _⟩

theorem dropBack_spec (max : Bool) (cap : Nat) (q : Nat → MonoCell α) (v : α) (small : front + count < u32Size) :
    ∃ left dropped, dropBack max cap q front v count = left ∧ left ≤ count ∧
      deque cap q front count = deque cap q front left ++ dropped ∧ (∀ c ∈ dropped, dominated max c.v v) ∧
      ∀ c ∈ (deque cap q front left).getLast?, ¬ dominated max c.v v := by
  induction count with
  | zero => exact ⟨0, [], rfl, le_rfl, by simp, by simp, by simp [deque, RingBuffer.contents]⟩
  | succ count ih =>
    rw [dropBack, word_eq (by omega), deque_succ]
    split
    · rename_i under
      obtain ⟨left, dropped, made, less, listed, all, last⟩ := ih (by omega)
      refine ⟨left, dropped ++ [_], made, by omega, by rw [listed, append_assoc], ?_, last⟩
      intro c member
      rcases mem_append.mp member with earlier | final
      · exact all c earlier
      · exact mem_singleton.mp final ▸ under
    · rename_i stays
      refine ⟨count + 1, [], rfl, le_rfl, by rw [deque_succ, append_nil], by simp, ?_⟩
      rw [deque_succ]
      simpa using stays

omit [LinearOrder α] in
theorem evict_spec (q : Nat → MonoCell α) (n count : Nat) (inside : front < cap) (small : cap < u32Size) :
    ∃ front' count' old, evict cap q n front count = (front', count') ∧ front' < cap ∧
      front' + count' ≤ front + count ∧ count' ≤ count ∧ deque cap q front count = old ++ deque cap q front' count' ∧
      (∀ c ∈ old, wrappingSub n c.ix > cap) ∧ ∀ c ∈ (deque cap q front' count').head?, ¬ wrappingSub n c.ix > cap := by
  induction count generalizing front with
  | zero => exact ⟨front, 0, [], rfl, inside, le_rfl, le_rfl, rfl, by simp, by simp [deque, RingBuffer.contents]⟩
  | succ count ih =>
    obtain ⟨listed, next, step⟩ := deque_next q count inside small
    rw [evict]
    split
    · rename_i far
      obtain ⟨front', count', old, made, inside', sum, less, rest, all, first⟩ := ih next
      refine ⟨front', count', q front :: old, made, inside', by omega, by omega, ?_, ?_, first⟩
      · rw [listed, rest, cons_append]
      · exact forall_mem_cons.mpr ⟨far, all⟩
    · rename_i near
      exact ⟨front, count + 1, [], rfl, inside, le_rfl, le_rfl, rfl, by simp, by rw [listed]; simpa using near⟩

/-- The state after the values of a list. -/
structure Tracks (max : Bool) (cap : Nat) (vs : List α) (s : MonoHdr × (Nat → MonoCell α)) : Prop where
  n : s.1.n = vs.length
  front : s.1.front < cap
  reach : s.1.front + s.1.count ≤ vs.length
  fits : s.1.count ≤ cap
  peaks : Peaks (dominated max) cap vs (deque cap s.2 s.1.front s.1.count)

omit [LinearOrder α] in
theorem append_ends {xs ys old : List α} {z : α} (same : xs ++ [z] = old ++ ys) (absent : z ∉ old) :
    ∃ young, ys = young ++ [z] ∧ xs = old ++ young := by
  rcases eq_nil_or_concat' ys with rfl | ⟨young, last, rfl⟩
  · rw [append_nil] at same
    exact absurd (same ▸ mem_append_right xs (mem_singleton_self z)) absent
  · rw [← append_assoc] at same
    obtain ⟨front, final⟩ := append_inj' same rfl
    exact ⟨young, by rw [final], front⟩

variable {vs : List α}

theorem makeRoom_spec {dropped : List (MonoCell α)} (inside : front < cap) (small : cap < u32Size) (fits : count ≤ cap)
    (peaks : Peaks (dominated max) cap vs (deque cap q front count ++ dropped)) :
    ∃ front' count' old, makeRoom cap front count = (front', count') ∧
      front' < cap ∧ count' < cap ∧ front' + count' ≤ front + count ∧
      deque cap q front count = old ++ deque cap q front' count' ∧ ∀ c ∈ old, c.ix + cap ≤ vs.length := by
  unfold makeRoom
  split
  · rename_i full
    obtain ⟨room, rfl⟩ : ∃ room, count = room + 1 := Nat.exists_eq_add_one.mpr (by omega)
    obtain ⟨listed, next, step⟩ := deque_next q room inside small
    refine ⟨_, _, [q front], rfl, next, by omega, by omega, listed, fun c member => ?_⟩
    rw [listed, cons_append] at peaks
    have head := peaks.head_ix
    rw [length_append, RingBuffer.contents_length] at head
    rw [mem_singleton.mp member]
    dsimp only at head
    omega
  · exact ⟨_, _, [], rfl, inside, by omega, le_rfl, rfl, by simp⟩

omit [LinearOrder α] in
theorem far_iff {ix : Nat} (few : vs.length + 1 < u32Size) (early : ix ≤ vs.length) :
    wrappingSub (word (vs.length + 1)) ix > cap ↔ ix + cap ≤ vs.length := by
  unfold wrappingSub word u32Size at *
  omega

theorem Tracks.push {s : MonoHdr × (Nat → MonoCell α)} (tracks : Tracks max cap vs s) (small : cap < u32Size)
    (few : vs.length + 1 < u32Size) (v : α) : Tracks max cap (vs ++ [v]) (monoPush max cap s v) := by
  obtain ⟨⟨n, front, count⟩, q⟩ := s
  obtain ⟨rfl, inside, reach, fits, peaks⟩ := tracks
  dsimp only at inside reach fits peaks
  obtain ⟨left, dropped, made, less, listed, under, last⟩ := dropBack_spec max cap q v (show front + count < u32Size by omega)
  rw [listed] at peaks
  have above := peaks.above last
  obtain ⟨front', count', old, room, inside', fits', reach', listed', gone⟩ := makeRoom_spec inside small (by omega) peaks
  set q' := update q ((front' + count') % cap) ⟨v, vs.length⟩ with written
  have pushed : deque cap q' front' (count' + 1) = deque cap q front' count' ++ [⟨v, vs.length⟩] :=
    RingBuffer.push_contents (r := ⟨q, front', count'⟩) fits' _
  obtain ⟨front'', count'', old', evicted, inside'', reach'', fits'', rest, far, first⟩ :=
    evict_spec q' (word (vs.length + 1)) (count' + 1) inside' small
  have after : monoPush max cap (⟨vs.length, front, count⟩, q) v = (⟨word (vs.length + 1), front'', count''⟩, q') := by
    unfold monoPush
    rw [word_eq small]
    dsimp only
    rw [made, room, word_eq (show front' + count' < u32Size by omega), ← written, evicted]
  have new : (⟨v, vs.length⟩ : MonoCell α) ∉ old' := fun member =>
    absurd ((far_iff few le_rfl).mp (far _ member)) (by omega)
  obtain ⟨young, kept, split⟩ := append_ends (pushed.symm.trans rest) new
  rw [listed', split, ← append_assoc] at peaks
  rw [listed', split] at above
  have early : ∀ c ∈ old' ++ young, c.ix ≤ vs.length := fun c member =>
    (peaks.ix_lt (mem_append_left _ (append_assoc .. ▸ mem_append_right old member))).le
  rw [after]
  refine ⟨by rw [length_append]; exact word_eq few, inside'', ?_, ?_, ?_⟩
  · rw [length_append, length_singleton]
    dsimp only
    omega
  · exact fits''.trans fits'
  dsimp only
  rw [kept]
  refine peaks.push (by omega) ?_ ?_ (fun c member => above c (by simp [member])) under
  · intro c member
    rcases mem_append.mp member with full | past
    · exact gone c full
    · exact (far_iff few (early c (mem_append_left _ past))).mp (far c past)
  · intro c member
    obtain ⟨a, others, rfl⟩ := exists_cons_of_ne_nil (ne_nil_of_mem member)
    have le := Peaks.head_le (pairwise_append.mp (pairwise_append.mp peaks.order).1).2.1 member
    have near := first a (by rw [kept]; rfl)
    rw [far_iff few (early a (by simp))] at near
    omega

theorem Tracks.run (small : cap < u32Size) (some : 0 < cap) (q : Nat → MonoCell α) (few : vs.length < u32Size) :
    Tracks max cap vs (run (monoPush max cap) (⟨0, 0, 0⟩, q) vs) := by
  induction vs using reverseRecOn with
  | nil => exact ⟨rfl, some, le_rfl, Nat.zero_le _, ⟨nofun, nofun, .nil, nofun, nofun⟩⟩
  | append_singleton vs v ih =>
    rw [length_append, length_singleton] at few
    rw [run_concat]
    exact (ih (by omega)).push small few v

theorem Tracks.query {s : MonoHdr × (Nat → MonoCell α)} (tracks : Tracks max cap vs s) (small : cap < u32Size)
    (few : vs.length < u32Size) {len : Nat} (some : 0 < len) (enough : len ≤ vs.length) (short : len ≤ cap) :
    ∃ old c young, deque cap s.2 s.1.front s.1.count = old ++ c :: young ∧ (∀ c ∈ old, c.ix + len < vs.length) ∧
      vs.length ≤ c.ix + len ∧ monoQuery cap s.1 s.2 len = .some (c.v, vs.length - 1 - c.ix) := by
  obtain ⟨⟨n, front, count⟩, q⟩ := s
  obtain ⟨rfl, inside, reach, -, peaks⟩ := tracks
  dsimp only at peaks reach ⊢
  let past : MonoCell α → Bool := fun c => decide (vs.length - c.ix > len)
  have newest := getElem?_eq_getElem (show vs.length - 1 < vs.length by omega)
  obtain ⟨d, member, late, -⟩ := peaks.covers _ _ newest (by omega)
  have halves := (takeWhile_append_dropWhile (p := past) (l := deque cap q front count)).symm
  cases right : (deque cap q front count).dropWhile past with
  | nil =>
    have all := dropWhile_eq_nil_iff.mp right d member
    simp only [past, decide_eq_true_eq] at all
    omega
  | cons c young =>
    rw [right] at halves
    have near : ¬ past c := by
      have first := head_dropWhile_not past (show (deque cap q front count).dropWhile past ≠ [] by simp [right])
      simpa only [right, head_cons, Bool.not_eq_true] using first
    have order := (pairwise_append.mp (halves ▸ peaks.order)).2.1
    have others : ∀ x ∈ c :: young, ¬ past x := by
      intro x here
      have := Peaks.head_le order here
      simp only [past, decide_eq_true_eq] at near ⊢
      omega
    have before : ∀ x ∈ (deque cap q front count).takeWhile past, past x := fun x here => mem_takeWhile_imp here
    have lo := firstNot_append before others
    rw [← halves] at lo
    generalize (deque cap q front count).takeWhile past = old at halves before lo
    have length : old.length < count := by
      have whole : (deque cap q front count).length = count := RingBuffer.contents_length ..
      rw [halves, length_append, length_cons] at whole
      omega
    have cell : q ((front + old.length) % cap) = c := by
      have place : (deque cap q front count)[old.length]? = .some (q ((front + old.length) % cap)) := by
        simp [deque, RingBuffer.contents, length]
      rw [halves, getElem?_append_right le_rfl, Nat.sub_self] at place
      exact (Option.some.inj place).symm
    refine ⟨old, c, young, halves, fun x here => ?_, ?_, ?_⟩
    · have := before x here
      simp only [past, decide_eq_true_eq] at this
      omega
    · simp only [past, decide_eq_true_eq] at near
      omega
    · unfold monoQuery
      rw [if_neg (by dsimp only; omega), word_eq small]
      dsimp only
      rw [lo, word_eq (by omega), cell]

/-- What the newest `len` values have for an extreme, with how far back it last stood. -/
structure Extreme (max : Bool) (newest : List α) (v : α) (back : Nat) : Prop where
  held : newest[back]? = some v
  extreme : ∀ w ∈ newest, if max then w ≤ v else v ≤ w
  first : ∀ i < back, newest[i]? ≠ some v

theorem sliding_extreme (max : Bool) (qLen : Nat) (nonempty : 0 < qLen) (small : qLen < u32Size) (q : Nat → MonoCell α)
    (vs : List α) (few : vs.length < u32Size) (len : Nat) (some : 1 ≤ len) (short : len ≤ qLen) :
    let s := run (monoPush max qLen) (⟨0, 0, 0⟩, q) vs
    (monoQuery qLen s.1 s.2 len = none ↔ vs.length < len) ∧
    ∀ v back, monoQuery qLen s.1 s.2 len = .some (v, back) → Extreme max (vs.reverse.take len) v back := by
  intro s
  have tracks : Tracks max qLen vs s := Tracks.run small nonempty q few
  by_cases enough : len ≤ vs.length
  · obtain ⟨old, c, young, listed, past, inside, asked⟩ := tracks.query small few some enough short
    have peaks := listed ▸ tracks.peaks
    have here : c ∈ old ++ c :: young := by simp
    have early := peaks.ix_lt here
    rw [asked]
    refine ⟨by simp [enough], ?_⟩
    rintro v back ⟨⟩
    have newest : ∀ i w, (vs.reverse.take len)[i]? = .some w → i < len ∧ vs[vs.length - 1 - i]? = .some w := by
      intro i w found
      rw [getElem?_take] at found
      split at found
      · rename_i lt
        exact ⟨lt, getElem?_reverse (show i < vs.length by omega) ▸ found⟩
      · cases found
    refine ⟨?_, fun w member => ?_, fun i nearer found => ?_⟩
    · rw [getElem?_take, if_pos (by omega), getElem?_reverse (by omega),
        show vs.length - 1 - (vs.length - 1 - c.ix) = c.ix by omega]
      exact peaks.value c here
    · obtain ⟨i, found⟩ := getElem?_of_mem member
      obtain ⟨lt, place⟩ := newest i w found
      exact (peaks.extreme short past place (by omega)).1
    · obtain ⟨lt, place⟩ := newest i c.v found
      exact (peaks.extreme short past place (by omega)).2 (by omega) rfl
  · have none : monoQuery qLen s.1 s.2 len = none := by
      unfold monoQuery
      exact if_pos (.inl (by rw [tracks.n]; omega))
    rw [none]
    exact ⟨by simp; omega, nofun⟩

theorem highest_of_three :
    let s := run (monoPush true 2) (⟨0, 0, 0⟩, fun _ => ⟨0, 0⟩) [7, 4, 5]
    monoQuery 2 s.1 s.2 2 = some (5, 0) ∧ Extreme true ([7, 4, 5].reverse.take 2) 5 0 := by
  have asked : let s := run (monoPush true 2) (⟨0, 0, 0⟩, fun _ => ⟨0, 0⟩) [7, 4, 5]
      monoQuery 2 s.1 s.2 2 = some (5, 0) := by decide +kernel
  exact ⟨asked, (sliding_extreme true 2 (by decide) (by decide) _ _ (by decide) 2 (by decide) (by decide)).2 5 0 asked⟩

/-- A slice of `2 ^ 32 + 1` cells is used as one cell. -/
theorem long_slice_forgets :
    let s := run (monoPush true (2 ^ 32 + 1)) (⟨0, 0, 0⟩, fun _ => ⟨0, 0⟩) [5, 3]
    monoQuery (2 ^ 32 + 1) s.1 s.2 2 = some (3, 0) ∧ ¬ Extreme true ([5, 3].reverse.take 2) 3 0 :=
  ⟨by decide +kernel, fun ⟨_, above, _⟩ => absurd (above 5 (by decide)) (by decide)⟩

end TradingEngine.Pine
