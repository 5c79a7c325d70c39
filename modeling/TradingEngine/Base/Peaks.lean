import TradingEngine.Base.Ring

/-!
# The peaks of a sliding window

Of the last values of a series, those that no later one reaches: the extreme of every shorter window is the oldest of
them in it.
-/

namespace TradingEngine.Base

structure Stamped (α : Type*) where
  v : α
  ix : Nat

structure Peaks {α : Type*} (le : α → α → Prop) (cap : Nat) (vs : List α) (cells : List (Stamped α)) : Prop where
  value : ∀ c ∈ cells, vs[c.ix]? = some c.v
  recent : ∀ c ∈ cells, vs.length ≤ c.ix + cap
  order : cells.Pairwise fun a b => a.ix < b.ix
  strict : ∀ c ∈ cells, ∀ i w, c.ix < i → vs[i]? = some w → ¬ le c.v w
  covers : ∀ i w, vs[i]? = some w → vs.length ≤ i + cap → ∃ c ∈ cells, i ≤ c.ix ∧ le w c.v

namespace Peaks

open List

variable {α : Type*} {le : α → α → Prop} [Std.Total le] [IsTrans α le] {cap : Nat} {vs : List α} {v : α} {c : Stamped α}
  {old young cells dropped : List (Stamped α)}

omit [Std.Total le] [IsTrans α le] in
theorem ix_lt (peaks : Peaks le cap vs cells) (member : c ∈ cells) : c.ix < vs.length :=
  (List.getElem?_eq_some_iff.mp (peaks.value c member)).1

theorem head_le {c d : Stamped α} (order : (c :: cells).Pairwise fun a b => a.ix < b.ix) (member : d ∈ c :: cells) :
    c.ix ≤ d.ix := by
  rcases mem_cons.mp member with rfl | later
  · exact le_rfl
  · exact ((pairwise_cons.mp order).1 d later).le

omit [Std.Total le] [IsTrans α le] in
/-- As many peaks as the window has places take every place. -/
theorem head_ix (peaks : Peaks le cap vs (c :: cells)) : c.ix + (cells.length + 1) ≤ vs.length := by
  have climb : ∀ (a : Stamped α) (rest : List (Stamped α)), (a :: rest).Pairwise (fun a b => a.ix < b.ix) →
      (∀ b ∈ a :: rest, b.ix < vs.length) → a.ix + (rest.length + 1) ≤ vs.length := by
    intro a rest order below
    induction rest generalizing a with
    | nil => exact below a mem_cons_self
    | cons b rest ih =>
      rw [pairwise_cons] at order
      have next := ih b order.2 fun x member => below x (mem_cons_of_mem a member)
      have first := order.1 b mem_cons_self
      rw [length_cons]
      omega
  exact climb c cells peaks.order fun b => peaks.ix_lt

/-- A value that does not reach the newest peak it leaves reaches none before it. -/
theorem above (peaks : Peaks le cap vs (cells ++ dropped)) (last : ∀ c ∈ cells.getLast?, ¬ le c.v v) :
    ∀ c ∈ cells, ¬ le c.v v := by
  intro c member reaches
  obtain ⟨init, final, rfl⟩ := eq_nil_or_concat' cells |>.resolve_left (ne_nil_of_mem member)
  have stays : ¬ le final.v v := last final (by simp)
  rcases mem_append.mp member with early | late
  · have order := (pairwise_append.mp (pairwise_append.mp peaks.order).1).2.2 c early final (by simp)
    have lower := peaks.strict c (mem_append_left _ member) _ _ order (peaks.value final (by simp))
    have upper := (Std.Total.total (r := le) c.v final.v).resolve_left lower
    exact stays (IsTrans.trans _ _ _ upper reaches)
  · exact stays (mem_singleton.mp late ▸ reaches)

theorem push (peaks : Peaks le cap vs (old ++ young ++ dropped)) (room : 0 < cap)
    (gone : ∀ c ∈ old, c.ix + cap ≤ vs.length) (stay : ∀ c ∈ young, vs.length < c.ix + cap)
    (above : ∀ c ∈ young, ¬ le c.v v) (under : ∀ c ∈ dropped, le c.v v) :
    Peaks le cap (vs ++ [v]) (young ++ [⟨v, vs.length⟩]) := by
  have kept : ∀ c ∈ young, c ∈ old ++ young ++ dropped := fun c member => by simp [member]
  have places : ∀ i w, (vs ++ [v])[i]? = some w → vs[i]? = some w ∨ i = vs.length ∧ w = v := by
    intro i w found
    rcases Nat.lt_trichotomy i vs.length with lt | rfl | gt
    · exact .inl (getElem?_append_left lt ▸ found)
    · exact .inr ⟨rfl, by simpa using found.symm⟩
    · rw [getElem?_eq_none (by simp; omega)] at found
      cases found
  constructor
  · intro c member
    rcases mem_append.mp member with mine | new
    · exact getElem?_append_left (peaks.ix_lt (kept c mine)) ▸ peaks.value c (kept c mine)
    · rw [mem_singleton.mp new]
      exact getElem?_concat_length
  · intro c member
    rw [length_append, length_singleton]
    rcases mem_append.mp member with mine | new
    · exact stay c mine
    · rw [mem_singleton.mp new]
      dsimp only
      omega
  · have order := (pairwise_append.mp (pairwise_append.mp peaks.order).1).2.1
    refine pairwise_append.mpr ⟨order, pairwise_singleton .., fun a mine b new => ?_⟩
    rw [mem_singleton.mp new]
    exact peaks.ix_lt (kept a mine)
  · intro c member i w later found
    rcases mem_append.mp member with mine | new
    · rcases places i w found with earlier | ⟨-, rfl⟩
      · exact peaks.strict c (kept c mine) i w later earlier
      · exact above c mine
    · rw [mem_singleton.mp new] at later
      rcases places i w found with earlier | ⟨rfl, -⟩
      · exact absurd (List.getElem?_eq_some_iff.mp earlier).1 later.le.not_gt
      · exact absurd later (lt_irrefl _)
  · intro i w found recent
    rw [length_append, length_singleton] at recent
    rcases places i w found with earlier | ⟨rfl, rfl⟩
    · obtain ⟨c, member, later, reaches⟩ := peaks.covers i w earlier (by omega)
      rcases mem_append.mp member with held | down
      · rcases mem_append.mp held with past | mine
        · have := gone c past
          omega
        · exact ⟨c, mem_append_left _ mine, later, reaches⟩
      · refine ⟨_, mem_append_right _ (mem_singleton_self _), ?_, IsTrans.trans _ _ _ reaches (under c down)⟩
        exact (List.getElem?_eq_some_iff.mp earlier).1.le
    · exact ⟨_, mem_append_right _ (mem_singleton_self _), le_rfl, (Std.Total.total w w).elim id id⟩

/-- The oldest peak of a window is its extreme, and no later value equals it. -/
theorem extreme (peaks : Peaks le cap vs (old ++ c :: young)) {len : Nat} (short : len ≤ cap)
    (past : ∀ c ∈ old, c.ix + len < vs.length) {i : Nat} {w : α} (found : vs[i]? = some w) (inside : vs.length ≤ i + len) :
    le w c.v ∧ (c.ix < i → w ≠ c.v) := by
  have self : c ∈ old ++ c :: young := by simp
  refine ⟨?_, fun later same => ?_⟩
  · obtain ⟨d, member, later, reaches⟩ := peaks.covers i w found (by omega)
    rcases mem_append.mp member with gone | here
    · have := past d gone
      omega
    rcases mem_cons.mp here with rfl | after
    · exact reaches
    · have order := (pairwise_cons.mp (pairwise_append.mp peaks.order).2.1).1 d after
      have lower := peaks.strict c self _ _ order (peaks.value d member)
      exact IsTrans.trans _ _ _ reaches ((Std.Total.total (r := le) c.v d.v).resolve_left lower)
  · exact peaks.strict c self i w later found (same ▸ (Std.Total.total w w).elim id id)

end Peaks

end TradingEngine.Base
