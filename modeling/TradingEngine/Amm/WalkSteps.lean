import TradingEngine.Amm.SwapStep
import TradingEngine.Amm.TickBounds
import TradingEngine.Amm.Walk

/-!
# One turn of the walk

Where a turn aims, which nodes lie on its way, and what it leaves: the tick keeps its place under the price and the
cursor keeps its place in the list.
-/

namespace TradingEngine.Amm

open Base List

theorem floorDiv_eq {a b : Int} (positive : 0 < b) : floorDiv a b = a / b := by
  have whole : b ∣ a ↔ a.tmod b = 0 := Int.dvd_iff_tmod_eq_zero
  rw [floorDiv, Int.tdiv_eq_ediv, Int.sign_eq_one_of_pos positive]
  simp only [whole]
  split_ifs <;> omega

theorem lt_of_tdiv_lt {n s W : Int} (positive : 0 < s) (less : n.tdiv s < W) : n < W * s := by
  have split := Int.mul_tdiv_add_tmod n s
  have rest := Int.tmod_lt_of_pos n positive
  have : s * n.tdiv s ≤ s * (W - 1) := Int.mul_le_mul_of_nonneg_left (by omega) positive.le
  rw [Int.mul_sub, Int.mul_one] at this
  rw [Int.mul_comm W]
  omega

theorem lt_of_lt_tdiv {n s W : Int} (positive : 0 < s) (more : W < n.tdiv s) : W * s < n := by
  have split := Int.mul_tdiv_add_tmod n s
  have rest := Int.lt_tmod_of_pos n positive
  have : s * (W + 1) ≤ s * n.tdiv s := Int.mul_le_mul_of_nonneg_left (by omega) positive.le
  rw [Int.mul_add, Int.mul_one] at this
  rw [Int.mul_comm W]
  omega

theorem word_below (tick : Int) {s : Int} (positive : 0 < s) : tick / s / 256 * 256 * s ≤ tick :=
  calc tick / s / 256 * 256 * s ≤ tick / s * s := Int.mul_le_mul_of_nonneg_right (by omega) positive.le
    _ ≤ tick := Int.ediv_mul_le tick positive.ne'

theorem word_above (tick : Int) {s : Int} (positive : 0 < s) : tick < ((tick / s + 1) / 256 * 256 + 255) * s :=
  calc tick < (tick / s + 1) * s := Int.lt_ediv_add_one_mul_self tick positive
    _ ≤ ((tick / s + 1) / 256 * 256 + 255) * s := Int.mul_le_mul_of_nonneg_right (by omega) positive.le

def Cursor (nodes : List TickNode) (tick : Int) (cursor : Nat) : Prop :=
  ∃ left right, nodes = left ++ right ∧ cursor = left.length ∧ (∀ n ∈ left, n.tick ≤ tick) ∧ ∀ n ∈ right, tick < n.tick

/-- The sum of the nets of the nodes not above a tick. -/
def netTo (nodes : List TickNode) (tick : Int) : Int := sumTo TickNode.tick TickNode.liquidityNet nodes tick

section Cursor

variable {nodes : List TickNode} {tick tick' : Int} {cursor : Nat}

theorem upperBound_cursor (ascending : Ascending TickNode.tick nodes) (tick : Int) :
    Cursor nodes tick (upperBound nodes tick) := by
  obtain ⟨left, row, right, rfl, less, own, greater⟩ := ascending.spot tick
  have low : ∀ n ∈ left ++ row.toList, n.tick ≤ tick := by
    intro n member
    rcases mem_append.mp member with member | member
    · exact (less n member).le
    · exact (own n (by simpa using member)).le
  refine ⟨left ++ row.toList, right, by simp, ?_, low, greater⟩
  rw [upperBound, ← append_assoc]
  exact firstNot_append (fun n member => by simpa using low n member) fun n member => by simpa using greater n member

theorem Cursor.move (place : Cursor nodes tick cursor) (same : ∀ n ∈ nodes, n.tick ≤ tick' ↔ n.tick ≤ tick) :
    Cursor nodes tick' cursor := by
  obtain ⟨left, right, rfl, rfl, low, high⟩ := place
  refine ⟨left, right, rfl, rfl, fun n member => ?_, fun n member => ?_⟩
  · exact (same n (by simp [member])).mpr (low n member)
  · have := (same n (by simp [member])).not.mpr (not_le.mpr (high n member))
    exact not_le.mp this

theorem Cursor.netTo_eq (place : Cursor nodes tick cursor) :
    netTo nodes tick = ((nodes.take cursor).map TickNode.liquidityNet).sum := by
  obtain ⟨left, right, rfl, rfl, low, high⟩ := place
  rw [netTo, sumTo_append, sumTo_all low, sumTo_none high, add_zero, take_left]

theorem Cursor.below (ascending : Ascending TickNode.tick nodes) (place : Cursor nodes tick cursor) :
    (∀ n, (if cursor > 0 then nodes[cursor - 1]? else none) = some n →
        n ∈ nodes ∧ n.tick ≤ tick ∧ (∀ k ∈ nodes, k.tick ≤ tick → k.tick ≤ n.tick) ∧
          Cursor nodes (n.tick - 1) (cursor - 1) ∧ netTo nodes tick = netTo nodes (n.tick - 1) + n.liquidityNet) ∧
      ((if cursor > 0 then nodes[cursor - 1]? else none) = none → ∀ k ∈ nodes, tick < k.tick) := by
  obtain ⟨left, right, rfl, rfl, low, high⟩ := place
  rcases eq_nil_or_concat' left with rfl | ⟨init, last, rfl⟩
  · exact ⟨by simp, fun _ k member => high k (by simpa using member)⟩
  have found : (if (init ++ [last]).length > 0 then ((init ++ [last]) ++ right)[(init ++ [last]).length - 1]? else none)
      = some last := by simp
  rw [found]
  refine ⟨?_, by simp⟩
  rintro n ⟨⟩
  have rising := (pairwise_append.mp ascending).1
  have less : ∀ k ∈ init, k.tick < last.tick := fun k member =>
    (pairwise_append.mp rising).2.2 k member last (by simp)
  have top := low last (by simp)
  have place : Cursor (init ++ [last] ++ right) (last.tick - 1) ((init ++ [last]).length - 1) := by
    refine ⟨init, last :: right, by simp, by simp, fun k member => ?_, fun k member => ?_⟩
    · have := less k member
      omega
    rcases mem_cons.mp member with rfl | member
    · omega
    · have := high k member
      omega
  refine ⟨by simp, top, fun k member le => ?_, place, ?_⟩
  · simp only [mem_append, mem_singleton] at member
    rcases member with (member | rfl) | member
    · exact (less k member).le
    · exact le_rfl
    · exact absurd le (not_le.mpr (high k member))
  · rw [place.netTo_eq, netTo, sumTo_append, sumTo_all low, sumTo_none high]
    simp

theorem Cursor.above (ascending : Ascending TickNode.tick nodes) (place : Cursor nodes tick cursor) :
    (∀ n, nodes[cursor]? = some n → n ∈ nodes ∧ tick < n.tick ∧ (∀ k ∈ nodes, tick < k.tick → n.tick ≤ k.tick) ∧
          Cursor nodes n.tick (cursor + 1) ∧ netTo nodes n.tick = netTo nodes tick + n.liquidityNet) ∧
      (nodes[cursor]? = none → ∀ k ∈ nodes, k.tick ≤ tick) := by
  obtain ⟨left, right, rfl, rfl, low, high⟩ := place
  rcases right with _ | ⟨first, rest⟩
  · exact ⟨by simp, fun _ k member => low k (by simpa using member)⟩
  have found : (left ++ first :: rest)[left.length]? = some first := by simp
  rw [found]
  refine ⟨?_, by simp⟩
  rintro n ⟨⟩
  have rising := (pairwise_append.mp ascending).2.1
  have more : ∀ k ∈ rest, first.tick < k.tick := (pairwise_cons.mp rising).1
  have bottom := high first (by simp)
  have place : Cursor (left ++ first :: rest) first.tick (left.length + 1) := by
    refine ⟨left ++ [first], rest, by simp, by simp, fun k member => ?_, more⟩
    rcases mem_append.mp member with member | member
    · exact (low k member).trans bottom.le
    · rw [mem_singleton.mp member]
  refine ⟨by simp, bottom, fun k member gt => ?_, place, ?_⟩
  · simp only [mem_append, mem_cons] at member
    rcases member with member | rfl | member
    · exact absurd gt (not_lt.mpr (low k member))
    · exact le_rfl
    · exact (more k member).le
  · rw [place.netTo_eq, netTo, sumTo_append, sumTo_all low, sumTo_none high]
    simp

end Cursor

structure Route.Fits (r : Route) : Prop where
  spacing : 0 < r.spacing
  ascending : Ascending TickNode.tick r.nodes
  inside : ∀ n ∈ r.nodes, r.loEdge ≤ n.tick ∧ n.tick ≤ r.hiEdge
  low : minTick ≤ r.loEdge
  high : r.hiEdge ≤ maxTick
  order : r.loEdge ≤ r.hiEdge
  cheap : r.feePips < pips
  limit : minSqrt ≤ r.limit ∧ r.limit ≤ maxSqrt
  edge : if r.zeroForOne then sqrtRatioAtTick r.loEdge ≤ r.limit else r.limit ≤ sqrtRatioAtTick r.hiEdge

/-- The node a turn crosses, and how the cursor and the prefix sum move past it. -/
structure Crossing (r : Route) (tick : Int) (cursor : Nat) (nt : Int) (n : TickNode) : Prop where
  passed : r.passed cursor = some n
  place : Cursor r.nodes (if r.zeroForOne then nt - 1 else nt) (if r.zeroForOne then cursor - 1 else cursor + 1)
  net : netTo r.nodes (if r.zeroForOne then nt - 1 else nt) =
    netTo r.nodes tick + if r.zeroForOne then -n.liquidityNet else n.liquidityNet

/-- What lies between the tick and the next step target: no node, and one on the target if it is initialised. -/
structure Aimed (r : Route) (tick : Int) (cursor : Nat) (nt : Int) (initialised : Bool) : Prop where
  bounds : minTick ≤ nt ∧ nt ≤ maxTick
  ahead : if r.zeroForOne then nt ≤ tick else tick < nt
  clear : ∀ n ∈ r.nodes, if r.zeroForOne then n.tick ≤ tick → n.tick ≤ nt else tick < n.tick → nt ≤ n.tick
  empty : initialised = false → ∀ n ∈ r.nodes,
    if r.zeroForOne then n.tick ≤ tick → n.tick < nt else tick < n.tick → nt < n.tick
  node : initialised = true → ∃ n, Crossing r tick cursor nt n

section Aim

variable {r : Route} {tick : Int} {cursor : Nat}

/-- A tick inside the domain that the price has not left on the trading side. -/
structure Roomy (r : Route) (tick : Int) : Prop where
  low : minTick ≤ tick + 1
  high : tick ≤ maxTick
  room : if r.zeroForOne then r.loEdge ≤ tick else tick < r.hiEdge

theorem aimed_empty (fits : r.Fits) (roomy : Roomy r tick) {nt : Int}
    (ahead : if r.zeroForOne then nt ≤ tick else tick < nt)
    (empty : ∀ n ∈ r.nodes, if r.zeroForOne then n.tick ≤ tick → n.tick < nt else tick < n.tick → nt < n.tick) :
    Aimed r tick cursor (clampTick nt) false := by
  obtain ⟨below, above, room⟩ := roomy
  have least := fits.low
  have most := fits.high
  have strict : ∀ n ∈ r.nodes,
      if r.zeroForOne then n.tick ≤ tick → n.tick < clampTick nt else tick < n.tick → clampTick nt < n.tick := by
    intro n member
    have := empty n member
    have := fits.inside n member
    unfold clampTick
    split_ifs at * <;> omega
  refine ⟨clampTick_bounds nt, ?_, fun n member => ?_, fun _ => strict, nofun⟩
  · unfold clampTick
    split_ifs at * <;> omega
  · have := strict n member
    split_ifs at * <;> omega

theorem aimed_node (fits : r.Fits) {n : TickNode} (member : n ∈ r.nodes)
    (ahead : if r.zeroForOne then n.tick ≤ tick else tick < n.tick)
    (nearest : ∀ k ∈ r.nodes, if r.zeroForOne then k.tick ≤ tick → k.tick ≤ n.tick else tick < k.tick → n.tick ≤ k.tick)
    (crossing : Crossing r tick cursor n.tick n) : Aimed r tick cursor (clampTick n.tick) true := by
  obtain ⟨above, below⟩ := fits.inside n member
  have least := fits.low.trans above
  have most := below.trans fits.high
  rw [clampTick_inside least most]
  exact ⟨⟨least, most⟩, ahead, nearest, nofun, fun _ => ⟨n, crossing⟩⟩

theorem stepTarget_aimed (fits : r.Fits) (place : Cursor r.nodes tick cursor) (roomy : Roomy r tick) :
    Aimed r tick cursor (r.stepTarget tick cursor).1 (r.stepTarget tick cursor).2 := by
  have spacing := fits.spacing
  have room := roomy.room
  unfold Route.stepTarget nextTick nextTickLinked
  rw [floorDiv_eq spacing]
  by_cases down : r.zeroForOne
  · obtain ⟨node, none⟩ := place.below fits.ascending
    simp only [down, if_true] at room ⊢
    have word := word_below tick spacing
    generalize tick / r.spacing / 256 * 256 = W at word ⊢
    cases found : (if cursor > 0 then r.nodes[cursor - 1]? else Option.none) with
    | none =>
      have empty : ∀ nt, ∀ k ∈ r.nodes, k.tick ≤ tick → k.tick < nt := fun nt k member le =>
        absurd (none found k member) (not_lt.mpr le)
      cases linked : r.linked
      · exact aimed_empty fits roomy (by simpa [down] using word) (by simpa [down] using empty _)
      · exact aimed_empty fits roomy (by simpa [down] using room) (by simpa [down] using empty _)
    | some n =>
      obtain ⟨member, le, nearest, moved, net⟩ := node n found
      have crossing : Crossing r tick cursor n.tick n := by
        refine ⟨?_, by simpa [down] using moved, by simp [down]; omega⟩
        simp only [Route.passed, down, if_true]
        split at found
        · exact found
        · exact absurd found (by simp)
      have aims := aimed_node fits member (by simpa [down] using le) (by simpa [down] using nearest) crossing
      cases linked : r.linked
      · simp only [Bool.false_eq_true, if_false]
        split
        · exact aims
        rename_i before
        have less := lt_of_tdiv_lt spacing (not_le.mp before)
        refine aimed_empty fits roomy (by simpa [down] using word) ?_
        simpa [down] using fun k member le => lt_of_le_of_lt (nearest k member le) less
      · exact aims
  · obtain ⟨node, none⟩ := place.above fits.ascending
    simp only [down, if_false, Bool.false_eq_true] at room ⊢
    have word := word_above tick spacing
    generalize (tick / r.spacing + 1) / 256 * 256 + 255 = W at word ⊢
    cases found : r.nodes[cursor]? with
    | none =>
      have empty : ∀ nt, ∀ k ∈ r.nodes, tick < k.tick → nt < k.tick := fun nt k member gt =>
        absurd (none found k member) (not_le.mpr gt)
      cases linked : r.linked
      · exact aimed_empty fits roomy (by simpa [down] using word) (by simpa [down] using empty _)
      · exact aimed_empty fits roomy (by simpa [down] using room) (by simpa [down] using empty _)
    | some n =>
      obtain ⟨member, gt, nearest, moved, net⟩ := node n found
      have crossing : Crossing r tick cursor n.tick n :=
        ⟨by simpa [Route.passed, down] using found, by simpa [down] using moved, by simpa [down] using net⟩
      have aims := aimed_node fits member (by simpa [down] using gt) (by simpa [down] using nearest) crossing
      cases linked : r.linked
      · simp only [Bool.false_eq_true, if_false]
        split
        · exact aims
        rename_i past
        have more := lt_of_lt_tdiv spacing (not_le.mp past)
        refine aimed_empty fits roomy (by simpa [down] using word) ?_
        simpa [down] using fun k member gt => lt_of_lt_of_le more (nearest k member gt)
      · exact aims

end Aim

/-- The price lies between those of the tick and of the next one. -/
structure Seated (sqrt : Nat) (tick : Int) : Prop where
  low : minTick ≤ tick + 1
  high : tick ≤ maxTick
  above : sqrtRatioAtTick tick ≤ sqrt
  below : sqrt ≤ sqrtRatioAtTick (tick + 1)

section Seated

variable {sqrt : Nat} {tick : Int}

theorem Seated.range (seated : Seated sqrt tick) : minSqrt ≤ sqrt ∧ sqrt ≤ maxSqrt :=
  ⟨(sqrtRatio_range tick).1.trans seated.above, seated.below.trans (sqrtRatio_range (tick + 1)).2⟩

theorem priced_of_range (range : minSqrt ≤ sqrt ∧ sqrt ≤ maxSqrt) : Priced sqrt :=
  ⟨lt_of_lt_of_le (by decide) range.1, lt_of_le_of_lt range.2 (by decide)⟩

theorem Seated.priced (seated : Seated sqrt tick) : Priced sqrt := priced_of_range seated.range

theorem seated_tickAt (low : minSqrt ≤ sqrt) (high : sqrt < maxSqrt) : Seated sqrt (tickAtSqrtRatio sqrt) := by
  obtain ⟨least, most, above, below⟩ := tickAt_bracket low high
  exact ⟨by omega, most.le, above, below.le⟩

end Seated

structure Underway (r : Route) (w : Walk) : Prop where
  seated : Seated w.sqrt w.tick
  toward : Toward r.zeroForOne w.sqrt r.limit
  place : Cursor r.nodes w.tick w.cursor
  small : w.remaining < u128Size
  unflagged : w.flags.math = false ∧ w.flags.refused = false

/-- What a turn does: it aims, steps, and leaves the walk in one of three ways. -/
structure Turned (r : Route) (w : Walk) (nt : Int) (initialised : Bool) (st : Step) : Prop where
  target : r.stepTarget w.tick w.cursor = (nt, initialised)
  aimed : Aimed r w.tick w.cursor nt initialised
  stepped : Stepped r.zeroForOne w.sqrt (r.aim nt) w.liq w.remaining r.exactIn r.feePips st
  result : r.turn w =
    if st.sqrtNext = sqrtRatioAtTick nt then (r.cross nt initialised (w.pay r.exactIn st), true)
    else if st.sqrtNext ≠ w.sqrt then
      ({ w.pay r.exactIn st with tick := tickAtSqrtRatio st.sqrtNext }, !r.linked)
    else (w.pay r.exactIn st, true)

section Turn

variable {r : Route} {w : Walk} {nt : Int} {initialised : Bool} {st : Step}

theorem aim_toward (r : Route) (nt : Int) :
    Toward r.zeroForOne (r.aim nt) r.limit ∧ Toward r.zeroForOne (r.aim nt) (sqrtRatioAtTick nt) := by
  unfold Route.aim
  cases r.zeroForOne
  · simp [toward_up]
  · simp [toward_down]

theorem aim_cases (r : Route) (nt : Int) : r.aim nt = sqrtRatioAtTick nt ∨ r.aim nt = r.limit := by
  unfold Route.aim
  split <;> omega

theorem Underway.roomy (underway : Underway r w) (fits : r.Fits) (far : w.sqrt ≠ r.limit) : Roomy r w.tick := by
  obtain ⟨seated, toward, _, _, _⟩ := underway
  refine ⟨seated.low, seated.high, ?_⟩
  have edge := fits.edge
  have above := seated.above
  have below := seated.below
  have up : sqrtRatioAtTick w.tick < sqrtRatioAtTick r.hiEdge → w.tick < r.hiEdge := lt_of_sqrtRatio_lt
  have down : sqrtRatioAtTick r.loEdge < sqrtRatioAtTick (w.tick + 1) → r.loEdge < w.tick + 1 := lt_of_sqrtRatio_lt
  unfold Toward at toward
  split_ifs at * <;> omega

theorem Aimed.toward (aimed : Aimed r w.tick w.cursor nt initialised) (seated : Seated w.sqrt w.tick) :
    Toward r.zeroForOne w.sqrt (sqrtRatioAtTick nt) := by
  have ahead := aimed.ahead
  unfold Toward
  split_ifs at *
  · exact (sqrtRatio_mono ahead).trans seated.above
  · exact seated.below.trans (sqrtRatio_mono ahead)

theorem aim_between (first : Toward r.zeroForOne w.sqrt (sqrtRatioAtTick nt)) (second : Toward r.zeroForOne w.sqrt r.limit) :
    Toward r.zeroForOne w.sqrt (r.aim nt) := by
  rcases aim_cases r nt with same | same <;> rwa [same]

theorem turn_eq (aim : r.stepTarget w.tick w.cursor = (nt, initialised))
    (found : computeSwapStep w.sqrt (r.aim nt) w.liq w.remaining r.exactIn r.feePips = some st) :
    r.turn w = if st.sqrtNext = sqrtRatioAtTick nt then (r.cross nt initialised (w.pay r.exactIn st), true)
      else if st.sqrtNext ≠ w.sqrt then
        ({ w.pay r.exactIn st with tick := tickAtSqrtRatio st.sqrtNext }, !r.linked)
      else (w.pay r.exactIn st, true) := by
  simp only [Route.turn, aim, found]

theorem aim_priced (stop : Priced r.limit) (nt : Int) : Priced (r.aim nt) := by
  rcases aim_cases r nt with same | same
  · rw [same]
    exact priced_of_range (sqrtRatio_range nt)
  · rwa [same]

theorem turn_spec (fits : r.Fits) (underway : Underway r w) (far : w.sqrt ≠ r.limit) :
    ∃ nt initialised st, Turned r w nt initialised st := by
  have aimed := stepTarget_aimed fits underway.place (underway.roomy fits far)
  have toward := aim_between (aimed.toward underway.seated) underway.toward
  obtain ⟨st, found, stepped⟩ := computeSwapStep_spec underway.seated.priced
    (aim_priced (priced_of_range fits.limit) _) w.liq.isLt r.exactIn toward fits.cheap (lt_trans underway.small (by decide))
  exact ⟨_, _, st, rfl, aimed, stepped, turn_eq rfl found⟩

theorem pay_remaining {target : Nat} {feePips : Nat} {exactIn zeroForOne : Bool} (small : w.remaining < u128Size)
    (stepped : Stepped zeroForOne w.sqrt target w.liq w.remaining exactIn feePips st) :
    (w.pay exactIn st).remaining + (if exactIn then st.amountIn + st.fee else st.amountOut) = w.remaining ∧
      (st.sqrtNext ≠ target → (w.pay exactIn st).remaining = 0) := by
  unfold Walk.pay
  cases exactIn
  · have most : st.amountOut ≤ w.remaining := by
      rw [stepped.amountOut, if_neg Bool.false_ne_true]
      exact Nat.min_le_right _ _
    have all := stepped.delivers Bool.false_ne_true
    simp only [Bool.false_eq_true, if_false]
    exact ⟨by omega, fun short => by rw [all short]; omega⟩
  · have most := stepped.spends rfl
    have all := stepped.spent rfl
    have whole : U256.wrappingAdd st.amountIn st.fee = st.amountIn + st.fee :=
      Nat.mod_eq_of_lt (by unfold u128Size at small; unfold u256Size; omega)
    simp only [if_true, whole]
    exact ⟨by omega, fun short => by rw [all short]; omega⟩

theorem Turned.ends (turned : Turned r w nt initialised st) (small : w.remaining < u128Size)
    (off : st.sqrtNext ≠ sqrtRatioAtTick nt) : (w.pay r.exactIn st).remaining = 0 ∨ st.sqrtNext = r.limit := by
  rcases aim_cases r nt with same | same
  · exact .inl ((pay_remaining small turned.stepped).2 (by rwa [same]))
  · by_cases reached : st.sqrtNext = r.limit
    · exact .inr reached
    · exact .inl ((pay_remaining small turned.stepped).2 (by rwa [same]))

@[simp] theorem cross_sqrt : (r.cross nt initialised w).sqrt = w.sqrt := by
  cases initialised <;> rfl

@[simp] theorem cross_tick : (r.cross nt initialised w).tick = if r.zeroForOne then nt - 1 else nt := by
  cases initialised <;> rfl

@[simp] theorem cross_remaining : (r.cross nt initialised w).remaining = w.remaining := by
  cases initialised <;> rfl

@[simp] theorem cross_flags : (r.cross nt initialised w).flags.math = w.flags.math ∧
    (r.cross nt initialised w).flags.refused = w.flags.refused := by
  cases initialised <;> exact ⟨rfl, rfl⟩

@[simp] theorem cross_steps : (r.cross nt initialised w).steps = w.steps := by
  cases initialised <;> rfl

@[simp] theorem cross_totals : (r.cross nt initialised w).totalIn = w.totalIn ∧
    (r.cross nt initialised w).totalOut = w.totalOut ∧ (r.cross nt initialised w).totalFee = w.totalFee := by
  cases initialised <;> exact ⟨rfl, rfl, rfl⟩

theorem cross_cursor : (r.cross nt initialised w).cursor =
    if initialised then (if r.zeroForOne then w.cursor - 1 else w.cursor + 1) else w.cursor := by
  cases initialised <;> rfl

theorem cross_place (aimed : Aimed r w.tick w.cursor nt initialised) (place : Cursor r.nodes w.tick w.cursor) :
    Cursor r.nodes (r.cross nt initialised (w.pay r.exactIn st)).tick (r.cross nt initialised (w.pay r.exactIn st)).cursor := by
  rw [cross_tick, cross_cursor]
  cases initialised
  · have empty := aimed.empty rfl
    have ahead := aimed.ahead
    refine place.move fun n member => ?_
    have := empty n member
    split_ifs at * <;> omega
  · obtain ⟨n, crossing⟩ := aimed.node rfl
    exact crossing.place

theorem Turned.clear (turned : Turned r w nt initialised st) (seated : Seated w.sqrt w.tick) :
    ∀ n ∈ r.nodes, if n.tick ≤ w.tick then sqrtRatioAtTick n.tick ≤ min w.sqrt st.sqrtNext
      else max w.sqrt st.sqrtNext ≤ sqrtRatioAtTick n.tick := by
  intro n member
  have within := turned.stepped.within.trans (aim_toward r nt).2
  have toward := turned.stepped.toward
  have clear := turned.aimed.clear n member
  have own : n.tick ≤ w.tick → sqrtRatioAtTick n.tick ≤ w.sqrt := fun le => (sqrtRatio_mono le).trans seated.above
  have other : w.tick < n.tick → w.sqrt ≤ sqrtRatioAtTick n.tick := fun gt => seated.below.trans (sqrtRatio_mono (by omega))
  have low : n.tick ≤ nt → sqrtRatioAtTick n.tick ≤ sqrtRatioAtTick nt := sqrtRatio_mono
  have high : nt ≤ n.tick → sqrtRatioAtTick nt ≤ sqrtRatioAtTick n.tick := sqrtRatio_mono
  unfold Toward at within toward
  split_ifs at * <;> omega

theorem Turned.moved_place (turned : Turned r w nt initialised st) (underway : Underway r w)
    (off : st.sqrtNext ≠ sqrtRatioAtTick nt) (moved : st.sqrtNext ≠ w.sqrt) :
    Seated st.sqrtNext (tickAtSqrtRatio st.sqrtNext) ∧
      st.sqrtNext < sqrtRatioAtTick (tickAtSqrtRatio st.sqrtNext + 1) ∧ Cursor r.nodes (tickAtSqrtRatio st.sqrtNext) w.cursor := by
  obtain ⟨seated, toward, place, _, _⟩ := underway
  have within := turned.stepped.within.trans (aim_toward r nt).2
  have forth := turned.stepped.toward
  have clear := turned.clear seated
  have start := seated.range
  have stop := sqrtRatio_range nt
  unfold Toward at within forth
  have range : minSqrt ≤ st.sqrtNext ∧ st.sqrtNext < maxSqrt := by split_ifs at within forth <;> omega
  have seated' := seated_tickAt range.1 range.2
  have strict := (tickAt_bracket range.1 range.2).2.2.2
  refine ⟨seated', strict, place.move fun n member => ?_⟩
  have side := clear n member
  constructor
  · intro le
    by_contra gt
    rw [if_neg gt] at side
    have same : sqrtRatioAtTick n.tick ≤ st.sqrtNext := (sqrtRatio_mono le).trans seated'.above
    -- only an upward step can meet such a node, and then it is the target
    have target := turned.aimed.clear n member
    have : nt ≤ n.tick → sqrtRatioAtTick nt ≤ sqrtRatioAtTick n.tick := sqrtRatio_mono
    split_ifs at * <;> omega
  · intro le
    rw [if_pos le] at side
    have := lt_of_sqrtRatio_lt (show sqrtRatioAtTick n.tick < sqrtRatioAtTick (tickAtSqrtRatio st.sqrtNext + 1) by omega)
    omega

theorem turn_underway (fits : r.Fits) (underway : Underway r w) (far : w.sqrt ≠ r.limit) : Underway r (r.turn w).1 := by
  obtain ⟨nt, initialised, st, turned⟩ := turn_spec fits underway far
  have stop := turned.stepped.within.trans (aim_toward r nt).1
  have paid := (pay_remaining underway.small turned.stepped).1
  have small : (w.pay r.exactIn st).remaining < u128Size := lt_of_le_of_lt (by omega) underway.small
  rw [turned.result]
  split
  · rename_i crossed
    obtain ⟨low, high⟩ := turned.aimed.bounds
    refine ⟨?_, by rw [cross_sqrt]; exact stop, cross_place turned.aimed underway.place, by rwa [cross_remaining],
      by rw [cross_flags.1, cross_flags.2]; exact underway.unflagged⟩
    rw [cross_sqrt, cross_tick, show (w.pay r.exactIn st).sqrt = sqrtRatioAtTick nt from crossed]
    cases r.zeroForOne
    · exact ⟨by simp; omega, high, le_rfl, sqrtRatio_mono (by simp)⟩
    · exact ⟨by simpa using low, by simp; omega, sqrtRatio_mono (by simp), by simp⟩
  · rename_i off
    split
    · rename_i moved
      obtain ⟨seated, _, place⟩ := turned.moved_place underway off moved
      exact ⟨seated, stop, place, small, underway.unflagged⟩
    rename_i still
    have still : st.sqrtNext = w.sqrt := not_not.mp still
    refine ⟨?_, stop, underway.place, small, underway.unflagged⟩
    show Seated st.sqrtNext w.tick
    rw [still]
    exact underway.seated

theorem turn_steps (r : Route) (w : Walk) : (r.turn w).1.steps = w.steps + 1 := by
  unfold Route.turn
  simp only
  split
  · rfl
  · split_ifs <;> simp [Walk.pay]

end Turn

section Loop

variable {r : Route} {I F E : Walk → Prop}

theorem loop_final (keep : ∀ w, w.steps < maxSteps → I w → w.remaining ≠ 0 → w.sqrt ≠ r.limit → I (r.turn w).1)
    (stop : ∀ w, I w → w.remaining ≠ 0 → w.sqrt ≠ r.limit → (r.turn w).2 = false → E (r.turn w).1)
    (done : ∀ w, I w → F w) (cap : ∀ w, I w → F { w with flags := { w.flags with stepCap := true } })
    {fuel : Nat} {w : Walk} (budget : w.steps + fuel = maxSteps) (start : I w) :
    F (r.loop fuel w) ∧ ((r.loop fuel w).remaining = 0 ∨ (r.loop fuel w).sqrt = r.limit ∨
      (r.loop fuel w).flags.stepCap = true ∨ E (r.loop fuel w)) := by
  induction fuel generalizing w with
  | zero =>
    rw [Route.loop]
    split
    · exact ⟨done w start, by tauto⟩
    · exact ⟨cap w start, .inr (.inr (.inl rfl))⟩
  | succ fuel ih =>
    rw [Route.loop]
    split
    · exact ⟨done w start, by tauto⟩
    rename_i more
    obtain ⟨left, far⟩ := not_or.mp more
    have budget' := turn_steps r w
    have kept := keep w (by omega) start left far
    split
    · exact ih (by omega) kept
    · rename_i halted
      exact ⟨done _ kept, .inr (.inr (.inr (stop w start left far (by simpa using halted))))⟩

end Loop

end TradingEngine.Amm
