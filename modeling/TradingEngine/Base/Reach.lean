import TradingEngine.Base.Scan

/-!
# How far two counters may drift apart

A counter saturates at the top of its word and stops at zero. Moves up and down are still to come, in any order and in
any part.
-/

namespace TradingEngine.Base

variable {r a b : Reach}

/-- A counter with the ups and downs still to come. -/
structure Reach where
  pos : Int
  ups : Int
  downs : Int

namespace Reach

def high (r : Reach) : Int := min i64Max (r.pos + r.ups)

def low (r : Reach) : Int := max 0 (r.pos - r.downs)

structure Valid (r : Reach) : Prop where
  pos : 0 ≤ r.pos
  top : r.pos ≤ i64Max
  ups : 0 ≤ r.ups
  downs : 0 ≤ r.downs

/-- The first counter stays within the reach of the second. -/
structure Within (r' r : Reach) : Prop where
  high : r'.high ≤ r.high
  low : r.low ≤ r'.low

theorem high_le (r : Reach) : r.high ≤ r.pos + r.ups := Int.min_le_right _ _

theorem le_low (r : Reach) : r.pos - r.downs ≤ r.low := Int.le_max_right _ _

theorem Valid.le_high (h : r.Valid) : r.pos ≤ r.high := Int.le_min.mpr ⟨h.top, by linarith [h.ups]⟩

theorem Valid.low_le (h : r.Valid) : r.low ≤ r.pos := Int.max_le.mpr ⟨h.pos, by linarith [h.downs]⟩

def moved (up : Bool) (pos q : Int) : Int := if up then min i64Max (pos + q) else max 0 (pos - q)

def arrive (r : Reach) (up : Bool) (q : Int) : Reach :=
  ⟨moved up r.pos q, if up then r.ups - q else r.ups, if up then r.downs else r.downs - q⟩

def more (r : Reach) (up : Bool) (q : Int) : Reach :=
  ⟨r.pos, if up then r.ups + q else r.ups, if up then r.downs else r.downs + q⟩

theorem arrive_within (h : r.Valid) {q : Int} (nonneg : 0 ≤ q) (up : Bool) : (r.arrive up q).Within r := by
  obtain ⟨pos, top, ups, downs⟩ := h
  cases up with
  | true => constructor <;> simp only [arrive, moved, high, low, if_true] <;> omega
  | false => constructor <;> simp only [arrive, moved, high, low, Bool.false_eq_true, if_false] <;> omega

def spread (a b : Reach) : Int := max (a.high - b.low) (b.high - a.low)

theorem spread_comm (a b : Reach) : spread a b = spread b a := Int.max_comm _ _

theorem spread_le_of_within {a' b' : Reach} (first : a'.Within a) (second : b'.Within b) :
    spread a' b' ≤ spread a b := by
  obtain ⟨high, low⟩ := first
  obtain ⟨high', low'⟩ := second
  unfold spread
  omega

theorem gap_le_spread (ha : a.Valid) (hb : b.Valid) : |a.pos - b.pos| ≤ spread a b := by
  have above : a.pos - b.pos ≤ a.high - b.low := by linarith [ha.le_high, hb.low_le]
  have below : b.pos - a.pos ≤ b.high - a.low := by linarith [hb.le_high, ha.low_le]
  have wide : b.pos - a.pos ≤ spread a b := below.trans (Int.le_max_right _ _)
  exact abs_le.mpr ⟨by linarith, above.trans (Int.le_max_left _ _)⟩

theorem spread_nonneg (ha : a.Valid) (hb : b.Valid) : 0 ≤ spread a b := (abs_nonneg _).trans (gap_le_spread ha hb)

theorem spread_le (ha : a.Valid) (hb : b.Valid) :
    spread a b ≤ |a.pos - b.pos| + (a.ups + a.downs + b.ups + b.downs) := by
  have above := le_abs_self (a.pos - b.pos)
  have below := neg_abs_le (a.pos - b.pos)
  refine Int.max_le.mpr ⟨?_, ?_⟩
  · linarith [a.high_le, b.le_low, ha.downs, hb.ups]
  · linarith [b.high_le, a.le_low, ha.ups, hb.downs]

/-- What is to come that takes the first counter up, or down, against the second. -/
def towards (a b : Reach) (up : Bool) : Int := if up then a.ups + b.downs else a.downs + b.ups

theorem towards_le (ha : a.Valid) (hb : b.Valid) (up : Bool) : towards a b up ≤ a.ups + a.downs + b.ups + b.downs := by
  cases up with
  | true =>
    simp only [towards, if_true]
    linarith [ha.downs, hb.ups]
  | false =>
    simp only [towards, Bool.false_eq_true, if_false]
    linarith [ha.ups, hb.downs]

def room (a b : Reach) (up : Bool) : Int := if up then b.pos - a.pos else a.pos - b.pos

theorem spread_more (ha : a.Valid) (up : Bool) (q : Int) :
    spread (a.more up q) b ≤ max (spread a b) (|moved up a.pos q - b.pos| + towards a b up) := by
  have above := le_abs_self (moved up a.pos q - b.pos)
  have below := neg_abs_le (moved up a.pos q - b.pos)
  cases up with
  | true =>
    have reached : (a.more true q).high ≤ moved true a.pos q + a.ups := by
      have := ha.ups
      simp only [more, moved, high, if_true]
      omega
    refine Int.max_le.mpr ⟨le_max_of_le_right ?_, le_max_of_le_left (Int.le_max_right _ _)⟩
    simp only [towards, if_true]
    linarith [b.le_low]
  | false =>
    have reached : moved false a.pos q - a.downs ≤ (a.more false q).low := by
      have := ha.downs
      simp only [more, moved, low, Bool.false_eq_true, if_false]
      omega
    refine Int.max_le.mpr ⟨le_max_of_le_left (Int.le_max_left _ _), le_max_of_le_right ?_⟩
    simp only [towards, Bool.false_eq_true, if_false]
    linarith [b.high_le]

theorem spread_spare (ha : a.Valid) (hb : b.Valid) {up : Bool} {q : Int}
    (spare : q + towards a b up ≤ room a b up) : spread (a.more up q) b ≤ spread a b := by
  have wide := spread_nonneg ha hb
  cases up with
  | true =>
    have behind : (a.more true q).high - b.low ≤ 0 := by
      have reached := (a.more true q).high_le
      simp only [more, towards, room, if_true] at reached spare ⊢
      linarith [b.le_low]
    exact Int.max_le.mpr ⟨behind.trans wide, Int.le_max_right _ _⟩
  | false =>
    have behind : b.high - (a.more false q).low ≤ 0 := by
      have reached := (a.more false q).le_low
      simp only [more, towards, room, Bool.false_eq_true, if_false] at reached spare ⊢
      linarith [b.high_le]
    exact Int.max_le.mpr ⟨Int.le_max_left _ _, behind.trans wide⟩

end Reach

end TradingEngine.Base
