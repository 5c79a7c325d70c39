import TradingEngine.Base.Ascending
import TradingEngine.Base.Shift
import TradingEngine.Core.Types

/-!
# The bounded ladder

One side of a book: at most sixty-four levels in two arrays, best first.
-/

namespace TradingEngine.BookBuilder

open Base CoreTypes Function List

def depthLadderCap : Nat := 64

structure LadderSide where
  px1e6 : Nat → Int
  qty1e6 : Nat → Int
  len : Nat
  beyondCap : Nat
  isBid : Bool

def better (isBid : Bool) (a b : Int) : Bool := if isBid then a > b else a < b

namespace LadderSide

def new (isBid : Bool) : LadderSide := ⟨fun _ => 0, fun _ => 0, 0, 0, isBid⟩

def seek (s : LadderSide) (px : Int) : Nat → Nat → Nat × Bool
  | 0, i => (i, false)
  | fuel + 1, i =>
    if s.px1e6 i = px then (i, true)
    else if better s.isBid px (s.px1e6 i) then (i, false)
    else s.seek px fuel (i + 1)

def delete (s : LadderSide) (i : Nat) : LadderSide :=
  { s with
    px1e6 := closeGap s.px1e6 (s.len - (i + 1)) i
    qty1e6 := closeGap s.qty1e6 (s.len - (i + 1)) i
    len := s.len - 1 }

def insert (s : LadderSide) (i j : Nat) (px qty : Int) (len : Nat) : LadderSide :=
  { s with
    px1e6 := update (openGap s.px1e6 (j - i) j) i px
    qty1e6 := update (openGap s.qty1e6 (j - i) j) i qty
    len := len }

def set (s : LadderSide) (px qty : Int) : LadderSide :=
  let i := (s.seek px s.len 0).1
  if (s.seek px s.len 0).2 then
    if qty = 0 then s.delete i else { s with qty1e6 := update s.qty1e6 i qty }
  else if qty = 0 then s
  else if s.len = depthLadderCap then
    if i = s.len then { s with beyondCap := bump u32Max s.beyondCap }
    else s.insert i (depthLadderCap - 1) px qty s.len
  else s.insert i s.len px qty (s.len + 1)

def level (s : LadderSide) (i : Nat) : DepthLevel := ⟨s.px1e6 i, s.qty1e6 i⟩

def topKInto (s : LadderSide) (out : Nat → DepthLevel) : Nat → DepthLevel :=
  let n := min s.len depthK
  let held := loop (fun i out => update out i (s.level i)) n out
  loop (fun i out => update out (n + i) .empty) (depthK - n) held

def levels (s : LadderSide) : List DepthLevel := rows s.level s.len

end LadderSide

def rank (isBid : Bool) (px : Int) : Int := if isBid then -px else px

theorem better_iff {isBid : Bool} {a b : Int} : better isBid a b = true ↔ rank isBid a < rank isBid b := by
  cases isBid <;> simp [better, rank]

theorem rank_inj {isBid : Bool} {a b : Int} : rank isBid a = rank isBid b ↔ a = b := by
  cases isBid <;> simp [rank]

def levelRank (isBid : Bool) (level : DepthLevel) : Int := rank isBid level.px1e6

namespace LadderSide

theorem seek_eq {s : LadderSide} {px : Int} {stop : Nat} (above : ∀ j < stop, rank s.isBid (s.px1e6 j) < rank s.isBid px)
    (here : stop < s.len → rank s.isBid px ≤ rank s.isBid (s.px1e6 stop)) {fuel i : Nat} (le : i ≤ stop)
    (inside : stop ≤ s.len) (enough : i + fuel = s.len) :
    s.seek px fuel i = (stop, decide (stop < s.len ∧ s.px1e6 stop = px)) := by
  induction fuel generalizing i with
  | zero =>
    obtain rfl : i = stop := by omega
    rw [seek, decide_eq_false (by omega)]
  | succ fuel ih =>
    rw [seek]
    rcases Nat.lt_or_ge i stop with lt | ge
    · have ahead := above i lt
      rw [if_neg (fun same => absurd ahead (by rw [same]; exact lt_irrefl _)),
        if_neg (fun worse => absurd ahead (not_lt.mpr (better_iff.mp worse).le))]
      exact ih lt (by omega)
    · obtain rfl : i = stop := by omega
      by_cases same : s.px1e6 i = px
      · rw [if_pos same, decide_eq_true ⟨by omega, same⟩]
      · have worse : rank s.isBid px < rank s.isBid (s.px1e6 i) :=
          lt_of_le_of_ne (here (by omega)) fun eq => same (rank_inj.mp eq).symm
        rw [if_neg same, if_pos (better_iff.mpr worse), decide_eq_false fun found => same found.2]

variable {s : LadderSide} {px : Int} {left right : List DepthLevel} {row : Option DepthLevel}

theorem px_of_levels {i : Nat} {level : DepthLevel} (here : s.levels[i]? = some level) : s.px1e6 i = level.px1e6 := by
  have lt : i < s.len := by
    obtain ⟨lt, _⟩ := List.getElem?_eq_some_iff.mp here
    simpa [levels] using lt
  rw [levels, rows_getElem? _ lt] at here
  exact congrArg DepthLevel.px1e6 (Option.some.inj here)

theorem seek_spot (spot : Spot (levelRank s.isBid) (rank s.isBid px) left row right)
    (held : s.levels = left ++ (row.toList ++ right)) : s.seek px s.len 0 = (left.length, row.isSome) := by
  have length : s.len = left.length + (row.toList ++ right).length := by
    rw [← length_append, ← held, levels, rows_length]
  have there : s.levels[left.length]? = (row.toList ++ right)[0]? := by
    rw [held, getElem?_append_right (Nat.le_refl _), Nat.sub_self]
  have above : ∀ j < left.length, rank s.isBid (s.px1e6 j) < rank s.isBid px := by
    intro j lt
    have ahead : s.levels[j]? = some left[j] := by rw [held, getElem?_append_left lt, getElem?_eq_getElem lt]
    rw [px_of_levels ahead]
    exact spot.less _ (getElem_mem lt)
  cases row with
  | some level =>
    have same : s.px1e6 left.length = level.px1e6 := px_of_levels there
    have own : level.px1e6 = px := rank_inj.mp (spot.own level rfl)
    rw [seek_eq above (fun _ => by rw [same, own]) (Nat.zero_le _) (by omega) (by omega),
      decide_eq_true ⟨by simp at length; omega, same.trans own⟩]
    rfl
  | none =>
    have greater : left.length < s.len → rank s.isBid px < rank s.isBid (s.px1e6 left.length) := by
      intro more
      cases right with
      | nil => simp at length; omega
      | cons level right =>
        rw [px_of_levels there]
        exact spot.greater level (by simp)
    rw [seek_eq above (fun more => (greater more).le) (Nat.zero_le _) (by omega) (by omega),
      decide_eq_false fun found => absurd (greater found.1) (by rw [found.2]; exact lt_irrefl _)]
    rfl

theorem delete_levels {level : DepthLevel} (held : s.levels = left ++ level :: right) :
    (s.delete left.length).levels = left ++ right := by
  have moved : (s.delete left.length).level = closeGap s.level (s.len - (left.length + 1)) left.length :=
    funext fun x => closeGap_paired DepthLevel.mk s.px1e6 s.qty1e6 _ _ x
  rw [levels, moved]
  exact rows_closeGap held

theorem insert_level (i j : Nat) (px qty : Int) (len : Nat) :
    (s.insert i j px qty len).level = update (openGap s.level (j - i) j) i ⟨px, qty⟩ := by
  have moved : (fun x => DepthLevel.mk (openGap s.px1e6 (j - i) j x) (openGap s.qty1e6 (j - i) j x)) =
      openGap s.level (j - i) j := funext fun x => openGap_paired DepthLevel.mk s.px1e6 s.qty1e6 (Nat.sub_le j i) x
  rw [← moved]
  exact funext fun x => update_paired DepthLevel.mk _ _ i x px qty

theorem replace_level (i : Nat) (qty : Int) :
    ({ s with qty1e6 := update s.qty1e6 i qty } : LadderSide).level = update s.level i ⟨s.px1e6 i, qty⟩ := by
  funext x
  by_cases same : x = i
  · subst same; simp [level]
  · simp [level, update_of_ne same]

/-- The level an update asks for; a size of zero asks for none. -/
def asked (px qty : Int) : Option DepthLevel := if qty = 0 then none else some ⟨px, qty⟩

theorem set_levels (spot : Spot (levelRank s.isBid) (rank s.isBid px) left row right)
    (held : s.levels = left ++ (row.toList ++ right)) (bounded : s.len ≤ depthLadderCap) (qty : Int) :
    (s.set px qty).levels = (left ++ ((asked px qty).toList ++ right)).take depthLadderCap := by
  have length : s.len = left.length + (row.toList.length + right.length) := by
    rw [← length_append, ← length_append, ← held, levels, rows_length]
  have fits : ∀ {xs : List DepthLevel}, xs.length ≤ s.len → xs.take depthLadderCap = xs :=
    fun short => take_of_length_le (short.trans bounded)
  unfold set
  rw [seek_spot spot held]
  cases row with
  | some level =>
    simp only [Option.isSome_some, if_true]
    simp only [Option.toList_some, length_singleton] at length
    by_cases none : qty = 0
    · rw [if_pos none, delete_levels held, asked, if_pos none]
      exact (fits (by simp; omega)).symm
    have own : s.px1e6 left.length = px := by
      have there : s.levels[left.length]? = some level := by rw [held]; simp
      exact (px_of_levels there).trans (rank_inj.mp (spot.own level rfl))
    rw [if_neg none, asked, if_neg none, levels, replace_level, own, fits (by simp; omega)]
    exact rows_replaced held
  | none =>
    simp only [Option.isSome_none, Bool.false_eq_true, if_false]
    simp only [Option.toList_none, length_nil, Nat.zero_add, nil_append] at length held
    by_cases none : qty = 0
    · rw [if_pos none, asked, if_pos none, held]
      exact (fits (by simp; omega)).symm
    rw [if_neg none, asked, if_neg none]
    by_cases full : s.len = depthLadderCap
    · rw [if_pos full]
      by_cases last : left.length = s.len
      · -- worse than everything held: the cut takes it away again
        obtain rfl : right = [] := eq_nil_of_length_eq_zero (by omega)
        rw [if_pos last]
        change s.levels = _
        rw [held, take_append, take_of_length_le (by omega), last, full, Nat.sub_self]
        simp
      · have full' : rows s.level (depthLadderCap - 1 + 1) = left ++ right := by rwa [levels, full] at held
        rw [if_neg last, levels, insert_level, insert, full]
        exact rows_openGap_full full' (by simp only [depthLadderCap] at full ⊢; omega)
    · rw [if_neg full, levels, insert_level, take_of_length_le (by simp; omega)]
      exact rows_openGap held

theorem set_isBid (px qty : Int) : (s.set px qty).isBid = s.isBid := by
  unfold set
  dsimp only
  split
  · split <;> rfl
  split
  · rfl
  · split
    · split <;> rfl
    · rfl

theorem levels_length : s.levels.length = s.len := rows_length _ _

end LadderSide

/-! ### The reference map

Sizes by price; a price without a level has size zero. -/

noncomputable def worst (isBid : Bool) (m : Int →₀ Int) : Int :=
  if isBid then m.support.min.untopD 0 else m.support.max.unbotD 0

noncomputable def modelApply (isBid : Bool) (m : Int →₀ Int) (px qty : Int) : Int →₀ Int :=
  let m := m.update px qty
  if depthLadderCap < m.support.card then m.erase (worst isBid m) else m

noncomputable def bestFirst (isBid : Bool) (m : Int →₀ Int) : List DepthLevel :=
  (if isBid then m.support.sort (· ≥ ·) else m.support.sort (· ≤ ·)).map fun px => ⟨px, m px⟩

/-- A list of levels, best first, that holds what the map holds. -/
structure Lists (isBid : Bool) (m : Int →₀ Int) (xs : List DepthLevel) : Prop where
  ascending : Ascending (levelRank isBid) xs
  holds : ∀ x, x ∈ xs ↔ m x.px1e6 = x.qty1e6 ∧ x.qty1e6 ≠ 0

namespace Lists

variable {isBid : Bool} {m : Int →₀ Int} {xs ys : List DepthLevel}

theorem unique (first : Lists isBid m xs) (second : Lists isBid m ys) : xs = ys :=
  first.ascending.eq_of_mem_iff second.ascending fun x => (first.holds x).trans (second.holds x).symm

theorem mem_px (lists : Lists isBid m xs) {px : Int} : px ∈ xs.map DepthLevel.px1e6 ↔ px ∈ m.support := by
  rw [mem_map, Finsupp.mem_support_iff]
  constructor
  · rintro ⟨x, member, rfl⟩
    obtain ⟨same, used⟩ := (lists.holds x).mp member
    rwa [same]
  · intro used
    exact ⟨⟨px, m px⟩, (lists.holds _).mpr ⟨rfl, used⟩, rfl⟩

theorem card (lists : Lists isBid m xs) : m.support.card = xs.length := by
  have distinct : (xs.map DepthLevel.px1e6).Nodup := by
    refine pairwise_map.mpr (lists.ascending.imp fun lt same => ?_)
    rw [levelRank, levelRank, same] at lt
    exact lt_irrefl _ lt
  have same : (xs.map DepthLevel.px1e6).toFinset = m.support := by
    ext px
    rw [mem_toFinset, lists.mem_px]
  rw [← same, toFinset_card_of_nodup distinct, length_map]

theorem nil : Lists isBid 0 [] := ⟨.nil _, fun x => by simp [eq_comm]⟩

theorem update {left right : List DepthLevel} {row : Option DepthLevel} {px : Int}
    (spot : Spot (levelRank isBid) (rank isBid px) left row right)
    (lists : Lists isBid m (left ++ (row.toList ++ right))) (qty : Int) :
    Lists isBid (m.update px qty) (left ++ ((LadderSide.asked px qty).toList ++ right)) := by
  have own : ∀ x ∈ LadderSide.asked px qty, levelRank isBid x = rank isBid px := by
    intro x member
    unfold LadderSide.asked at member
    split at member
    · cases member
    · cases member; rfl
  have spot' := spot.replace own
  refine ⟨spot.ascending own lists.ascending, fun x => ?_⟩
  rcases x with ⟨px', qty'⟩
  by_cases same : px' = px
  · subst same
    rw [spot'.mem_self rfl]
    simp only [LadderSide.asked, Finsupp.coe_update, update_self]
    split <;> simp <;> grind
  · have ne : levelRank isBid ⟨px', qty'⟩ ≠ rank isBid px := fun eq => same (rank_inj.mp eq)
    rw [spot'.mem_other ne, ← spot.mem_other ne, lists.holds]
    simp [Finsupp.coe_update, update_of_ne same]

theorem worst_eq {px : Int} (held : px ∈ m.support) (furthest : ∀ p ∈ m.support, rank isBid p ≤ rank isBid px) :
    worst isBid m = px := by
  unfold worst
  cases isBid with
  | true =>
    have least : m.support.min = px := le_antisymm (Finset.min_le held) (Finset.le_min fun p member => by
        have := furthest p member
        simp only [rank, if_true, neg_le_neg_iff] at this
        exact_mod_cast this)
    rw [if_pos rfl, least]
    rfl
  | false =>
    have most : m.support.max = px := le_antisymm (Finset.max_le fun p member => by
        have := furthest p member
        simp only [rank, Bool.false_eq_true, if_false] at this
        exact_mod_cast this) (Finset.le_max held)
    rw [if_neg (by simp), most]
    rfl

theorem cut (lists : Lists isBid m xs) {cap : Nat} (few : xs.length ≤ cap + 1) :
    Lists isBid (if cap < m.support.card then m.erase (worst isBid m) else m) (xs.take cap) := by
  rw [lists.card]
  by_cases past : cap < xs.length
  · obtain ⟨front, last, rfl⟩ : ∃ front last, xs = front ++ [last] :=
      ⟨xs.dropLast, xs.getLast (by intro nil; simp [nil] at past), (dropLast_append_getLast _).symm⟩
    rw [length_append, length_singleton] at few past
    obtain ⟨ascending, -, ahead⟩ := pairwise_append.mp lists.ascending
    have further : ∀ x ∈ front, levelRank isBid x < levelRank isBid last := fun x member => ahead x member last (by simp)
    have least : worst isBid m = last.px1e6 := by
      refine worst_eq (lists.mem_px.mp (by simp)) fun p member => ?_
      obtain ⟨x, there, rfl⟩ := mem_map.mp (lists.mem_px.mpr member)
      rcases mem_append.mp there with there | there
      · exact (further x there).le
      · rw [mem_singleton.mp there]
    rw [if_pos (by simpa using past), least, take_append_of_le_length (by omega), take_of_length_le (by omega)]
    refine ⟨ascending, fun x => ?_⟩
    by_cases same : x.px1e6 = last.px1e6
    · have absent : x ∉ front := fun member => by
        have := further x member
        rw [levelRank, levelRank, same] at this
        exact lt_irrefl _ this
      simp only [absent, same, Finsupp.erase_same, false_iff]
      rintro ⟨zero, used⟩
      exact used zero.symm
    · have other : x ≠ last := fun eq => same (congrArg _ eq)
      rw [Finsupp.erase_ne same, ← lists.holds]
      simp [other]
  · rw [if_neg past, take_of_length_le (by omega)]
    exact lists

theorem bestFirst (isBid : Bool) (m : Int →₀ Int) : Lists isBid m (bestFirst isBid m) := by
  have sorted : (if isBid then m.support.sort (· ≥ ·) else m.support.sort (· ≤ ·)).Pairwise
      fun a b => rank isBid a < rank isBid b := by
    cases isBid with
    | true => simpa [rank] using m.support.sortedGT_sort.pairwise
    | false => simpa [rank] using m.support.sortedLT_sort.pairwise
  have member : ∀ px, px ∈ (if isBid then m.support.sort (· ≥ ·) else m.support.sort (· ≤ ·)) ↔ px ∈ m.support := by
    intro px
    cases isBid <;> simp
  refine ⟨pairwise_map.mpr sorted, fun x => ?_⟩
  simp only [BookBuilder.bestFirst, mem_map, member, Finsupp.mem_support_iff]
  constructor
  · rintro ⟨px, used, rfl⟩
    exact ⟨rfl, used⟩
  · rintro ⟨same, used⟩
    exact ⟨x.px1e6, by rwa [same], by rw [same]⟩

end Lists

def applyAll (isBid : Bool) (updates : List (Int × Int)) : LadderSide :=
  run (fun s u => s.set u.1 u.2) (.new isBid) updates

noncomputable def modelAll (isBid : Bool) (updates : List (Int × Int)) : Int →₀ Int :=
  run (fun m u => modelApply isBid m u.1 u.2) 0 updates

structure Keeps (isBid : Bool) (s : LadderSide) (m : Int →₀ Int) : Prop where
  side : s.isBid = isBid
  lists : Lists isBid m s.levels
  bounded : s.len ≤ depthLadderCap

theorem Keeps.new (isBid : Bool) : Keeps isBid (.new isBid) 0 := ⟨rfl, Lists.nil, Nat.zero_le _⟩

theorem Keeps.set {isBid : Bool} {s : LadderSide} {m : Int →₀ Int} (keeps : Keeps isBid s m) (px qty : Int) :
    Keeps isBid (s.set px qty) (modelApply isBid m px qty) := by
  obtain ⟨rfl, lists, bounded⟩ := keeps
  obtain ⟨left, row, right, held, spot⟩ := lists.ascending.spot (rank s.isBid px)
  have after := LadderSide.set_levels spot held bounded qty
  have length : left.length + (row.toList.length + right.length) ≤ depthLadderCap := by
    rwa [← LadderSide.levels_length, held, length_append, length_append] at bounded
  have one : (LadderSide.asked px qty).toList.length ≤ 1 := by cases LadderSide.asked px qty <;> simp
  refine ⟨s.set_isBid px qty, ?_, ?_⟩
  · rw [after]
    exact (Lists.update spot (held ▸ lists) qty).cut (by rw [length_append, length_append]; omega)
  · rw [← LadderSide.levels_length, after, length_take]
    exact Nat.min_le_left _ _

theorem Keeps.run {isBid : Bool} {s : LadderSide} {m : Int →₀ Int} (keeps : Keeps isBid s m) (updates : List (Int × Int)) :
    Keeps isBid (run (fun s u => s.set u.1 u.2) s updates) (run (fun m u => modelApply isBid m u.1 u.2) m updates) := by
  induction updates generalizing s m with
  | nil => exact keeps
  | cons u rest ih => exact ih (keeps.set u.1 u.2)

theorem topKInto_apply (s : LadderSide) (out : Nat → DepthLevel) {i : Nat} (lt : i < depthK) :
    s.topKInto out i = s.levels[i]?.getD .empty := by
  unfold LadderSide.topKInto
  have held := loop_write s.level 0 (min s.len depthK) out i
  simp only [Nat.zero_add] at held
  rw [loop_write (fun _ => DepthLevel.empty)]
  rcases Nat.lt_or_ge i s.len with inside | past
  · rw [if_neg (by omega), held, if_pos (by omega), LadderSide.levels, rows_getElem? _ inside]
    rfl
  · rw [if_pos (by omega), getElem?_eq_none (by rw [LadderSide.levels_length]; exact past)]
    rfl

/-- After any updates the ladder holds the levels of the map, best first: at most sixty-four, no price twice,
and the best of them in the carrier. -/
theorem ladder_eq_model (isBid : Bool) (updates : List (Int × Int)) (out : Nat → DepthLevel) :
    let s := applyAll isBid updates
    let best := bestFirst isBid (modelAll isBid updates)
    s.levels.Pairwise (fun a b => better isBid a.px1e6 b.px1e6 = true) ∧
    s.levels.length ≤ depthLadderCap ∧
    s.levels = best ∧
    ∀ i < depthK, s.topKInto out i = best[i]?.getD .empty := by
  intro s best
  have keeps : Keeps isBid s (modelAll isBid updates) := (Keeps.new isBid).run updates
  have same : s.levels = best := keeps.lists.unique (Lists.bestFirst isBid _)
  refine ⟨keeps.lists.ascending.imp fun lt => better_iff.mpr lt, ?_, same, fun i lt => ?_⟩
  · rw [LadderSide.levels_length]
    exact keeps.bounded
  · rw [topKInto_apply s out lt, same]

end TradingEngine.BookBuilder
