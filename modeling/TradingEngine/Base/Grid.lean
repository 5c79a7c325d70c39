import Mathlib

/-!
# Grids of the line

Increasing marks, and for each point the last mark that is not past it.
-/

namespace TradingEngine.Base

structure Grid where
  start : Int → Int
  index : Int → Int
  rises : ∀ k, start k < start (k + 1)
  low : ∀ t, start (index t) ≤ t
  high : ∀ t, t < start (index t + 1)

namespace Grid

variable (g : Grid)

theorem strictMono : StrictMono g.start := strictMono_int_of_lt_succ g.rises

theorem index_eq {t k : Int} (low : g.start k ≤ t) (high : t < g.start (k + 1)) : g.index t = k := by
  have above := g.strictMono.lt_iff_lt.mp (low.trans_lt (g.high t))
  have below := g.strictMono.lt_iff_lt.mp ((g.low t).trans_lt high)
  omega

theorem index_start (k : Int) : g.index (g.start k) = k := g.index_eq le_rfl (g.rises k)

theorem card_marks (i j : Int) :
    ((Finset.Ico (g.start i) (g.start j)).filter fun x => g.start (g.index x) = x).card = (j - i).toNat := by
  have marks : (Finset.Ico (g.start i) (g.start j)).filter (fun x => g.start (g.index x) = x) =
      (Finset.Ico i j).image g.start := by
    ext x
    simp only [Finset.mem_filter, Finset.mem_image, Finset.mem_Ico]
    constructor
    · rintro ⟨⟨low, high⟩, mark⟩
      rw [← mark] at low high
      exact ⟨g.index x, ⟨g.strictMono.le_iff_le.mp low, g.strictMono.lt_iff_lt.mp high⟩, mark⟩
    · rintro ⟨k, ⟨low, high⟩, rfl⟩
      exact ⟨⟨g.strictMono.monotone low, g.strictMono high⟩, by rw [index_start]⟩
  rw [marks, Finset.card_image_of_injective _ g.strictMono.injective, Int.card_Ico]

end Grid

end TradingEngine.Base
