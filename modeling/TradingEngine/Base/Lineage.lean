import TradingEngine.Base.Run

/-!
# Lines of descent

A parent map makes a forest.
-/

namespace TradingEngine.Base

variable {α : Type*} {parent : α → Option α} {a u v : α}

def Descends (parent : α → Option α) : α → α → Prop := Relation.ReflTransGen fun p c => parent c = some p

theorem Descends.mark_climbs {marked : α → Prop} (climb : ∀ u p, marked u → parent u = some p → marked p) (path : Descends parent a u)
    (mark : marked u) : marked a := by
  induction path with
  | refl => exact mark
  | tail _ last ih => exact ih (climb _ _ mark last)

theorem Descends.top_unique (marked top : α → Prop) (climb : ∀ u p, marked u → parent u = some p → marked p)
    (single : ∀ u v p, marked u → marked v → parent u = some p → parent v = some p → u = v)
    (left : ∀ u p, marked u → parent u = some p → ¬ top p) (first : Descends parent a u) (second : Descends parent a v)
    (mark : marked u) (mark' : marked v) (high : top u) (high' : top v) : u = v := by
  induction first using Relation.ReflTransGen.head_induction_on with
  | refl =>
    rcases second.cases_head with same | ⟨c, child, rest⟩
    · exact same
    · exact absurd high (left c u (Descends.mark_climbs climb rest mark') child)
  | head child rest ih =>
    rename_i b c
    have here : marked c := Descends.mark_climbs climb rest mark
    rcases second.cases_head with rfl | ⟨c', child', rest'⟩
    · exact absurd high' (left c b here child)
    · obtain rfl := single c c' b here (Descends.mark_climbs climb rest' mark') child child'
      exact ih rest'

end TradingEngine.Base
