import TradingEngine.Amm.WalkSteps
import TradingEngine.Amm.TickEdits

/-!
# Where a walk ends

A walk over a valid map from a seated state stays before its limit and inside the coverage, books no more than the
amount, ends for a reason it flags, and leaves a seated state with the liquidity of its tick.
-/

namespace TradingEngine.Amm

open Base

/-- What every loaded and edited map keeps. -/
structure TickMap.Valid {N : Nat} (m : TickMap N) : Prop where
  ascending : Ascending TickNode.tick m.nodes
  inside : ∀ n ∈ m.nodes, m.loTick ≤ n.tick ∧ n.tick ≤ m.hiTick
  low : minTick ≤ m.loTick
  high : m.hiTick ≤ maxTick

section Valid

variable {N : Nat} {m : TickMap N}

theorem TickMap.empty_valid : (TickMap.empty : TickMap N).Valid :=
  ⟨Ascending.nil _, by simp [TickMap.empty], by simp [TickMap.empty, minTick], by simp [TickMap.empty, maxTick]⟩

theorem TickMap.commitNodes_valid {loTick hiTick tickSpacing : Int} {prev : Option Int} {nodes : List TickNode}
    (passed : TickMap.commitNodes loTick hiTick tickSpacing prev nodes = .ok ()) :
    Ascending TickNode.tick nodes ∧ ∀ n ∈ nodes, (∀ p ∈ prev, p < n.tick) ∧ loTick ≤ n.tick ∧ n.tick ≤ hiTick := by
  induction nodes generalizing prev with
  | nil => exact ⟨Ascending.nil _, by simp⟩
  | cons n rest ih =>
    rw [TickMap.commitNodes] at passed
    split at passed
    · exact absurd passed (by simp)
    rename_i checked
    obtain ⟨ascending, inside⟩ := ih passed
    have own : (∀ p ∈ prev, p < n.tick) ∧ loTick ≤ n.tick ∧ n.tick ≤ hiTick := by
      unfold TickMap.checkNode at checked
      split_ifs at checked with same lower outside
      refine ⟨?_, by omega, by omega⟩
      rintro p ⟨⟩
      simp only [Option.some.injEq, Option.any_some, decide_eq_true_eq] at same lower
      omega
    refine ⟨List.pairwise_cons.mpr ⟨fun k member => (inside k member).1 _ rfl, ascending⟩, fun k member => ?_⟩
    rcases List.mem_cons.mp member with rfl | member
    · exact own
    · obtain ⟨above, bounds⟩ := inside k member
      exact ⟨fun p before => (own.1 p before).trans (above _ rfl), bounds⟩

end Valid

section Booked

variable {r : Route} {w : Walk} {amount : Nat}

/-- What was traded and what is left make up the amount. -/
def Booked (r : Route) (amount : Nat) (w : Walk) : Prop :=
  (if r.exactIn then w.totalIn else w.totalOut) + w.remaining = amount

theorem pay_booked {target feePips : Nat} {zeroForOne : Bool} {st : Step}
    (stepped : Stepped zeroForOne w.sqrt target w.liq w.remaining r.exactIn feePips st) (small : w.remaining < u128Size)
    (fits : amount < u128Size) (booked : Booked r amount w) : Booked r amount (w.pay r.exactIn st) := by
  obtain ⟨rest, _⟩ := pay_remaining small stepped
  unfold Booked at booked ⊢
  unfold u128Size at fits
  cases exact : r.exactIn
  · simp only [exact, Bool.false_eq_true, if_false] at rest booked ⊢
    have whole : U256.wrappingAdd w.totalOut st.amountOut = w.totalOut + st.amountOut :=
      Nat.mod_eq_of_lt (by unfold u256Size; omega)
    show U256.wrappingAdd w.totalOut st.amountOut + (w.pay false st).remaining = amount
    omega
  · simp only [exact, if_true] at rest booked ⊢
    have spent : U256.wrappingAdd st.amountIn st.fee = st.amountIn + st.fee := Nat.mod_eq_of_lt (by unfold u256Size; omega)
    have whole : U256.wrappingAdd w.totalIn (st.amountIn + st.fee) = w.totalIn + (st.amountIn + st.fee) :=
      Nat.mod_eq_of_lt (by unfold u256Size; omega)
    show U256.wrappingAdd w.totalIn (U256.wrappingAdd st.amountIn st.fee) + (w.pay true st).remaining = amount
    rw [spent]
    omega

theorem cross_booked {nt : Int} {initialised : Bool} (booked : Booked r amount w) :
    Booked r amount (r.cross nt initialised w) := by
  unfold Booked
  rwa [cross_remaining, cross_totals.1, cross_totals.2.1]

theorem turn_booked (fits : r.Fits) (underway : Underway r w) (far : w.sqrt ≠ r.limit) (small : amount < u128Size)
    (booked : Booked r amount w) : Booked r amount (r.turn w).1 := by
  obtain ⟨nt, initialised, st, turned⟩ := turn_spec fits underway far
  have paid := pay_booked turned.stepped underway.small small booked
  rw [turned.result]
  split
  · exact cross_booked paid
  · split <;> exact paid

end Booked

section Loose

variable {r : Route} {w : Walk} {amount : Nat}

/-- What a walk keeps whatever tick it starts from. -/
structure Loose (r : Route) (amount : Nat) (w : Walk) : Prop where
  priced : Priced w.sqrt
  small : w.remaining < u128Size
  booked : Booked r amount w

theorem turn_loose (cheap : r.feePips < pips) (stop : Priced r.limit) (fits : amount < u128Size)
    (loose : Loose r amount w) : Loose r amount (r.turn w).1 := by
  obtain ⟨nt, initialised, aim⟩ : ∃ nt initialised, r.stepTarget w.tick w.cursor = (nt, initialised) := ⟨_, _, rfl⟩
  have target := aim_priced stop nt
  obtain ⟨st, found, stepped⟩ := stepped_decide loose.priced target w.liq.isLt r.exactIn cheap (lt_trans loose.small (by decide))
  have paid := pay_booked stepped loose.small fits loose.booked
  have next : Priced st.sqrtNext := loose.priced.between target stepped.toward stepped.within
  have left : (w.pay r.exactIn st).remaining < u128Size := by
    have rest := (pay_remaining loose.small stepped).1
    have := loose.small
    omega
  rw [turn_eq aim found]
  split
  · exact ⟨by rwa [cross_sqrt], by rwa [cross_remaining], cross_booked paid⟩
  · split <;> exact ⟨next, left, paid⟩

theorem walks_domain {spacing loEdge hiEdge : Int} {state : PoolState} {spec : SwapSpec}
    (walks : ¬ Refuses state spacing loEdge hiEdge spec) :
    (0 < spacing ∧ loEdge ≤ hiEdge ∧ loEdge ≤ state.tick ∧ minSqrt ≤ (state.sqrtPrice : Nat) ∧
        state.sqrtPrice < maxSqrt ∧ spec.feePips < pips) ∧
      if spec.zeroForOne then (spec.limit : Nat) < state.sqrtPrice else (state.sqrtPrice : Nat) < spec.limit := by
  obtain ⟨domain, limit⟩ := not_or.mp walks
  refine ⟨by omega, ?_⟩
  rw [Fin.le_def, Fin.le_def] at limit
  split_ifs with down <;> simpa [down] using limit

theorem walkRoute_limit {spacing loEdge hiEdge : Int} {state : PoolState} {spec : SwapSpec} (linked : Bool)
    (nodes : List TickNode) (walks : ¬ Refuses state spacing loEdge hiEdge spec) :
    minSqrt ≤ (walkRoute linked spacing nodes loEdge hiEdge spec).limit ∧
      (walkRoute linked spacing nodes loEdge hiEdge spec).limit ≤ maxSqrt := by
  obtain ⟨_, limit⟩ := walks_domain walks
  have edge := sqrtRatio_range (edgeTick spec.zeroForOne loEdge hiEdge)
  dsimp only [walkRoute]
  split_ifs at * <;> omega

theorem walk_within (linked : Bool) (state : PoolState) (spacing : Int) (nodes : List TickNode) (loEdge hiEdge : Int)
    (edgesKnown : Bool) (spec : SwapSpec) :
    (if spec.exactIn then (walk linked state spacing nodes loEdge hiEdge edgesKnown spec).amountIn
      else (walk linked state spacing nodes loEdge hiEdge edgesKnown spec).amountOut) ≤ spec.amount := by
  unfold walk
  by_cases walks : Refuses state spacing loEdge hiEdge spec
  · simp [if_pos walks, SwapResult.refuse]
  rw [if_neg walks]
  obtain ⟨⟨_, _, _, floor, ceiling, cheap⟩, _⟩ := walks_domain walks
  have stop := priced_of_range (walkRoute_limit linked nodes walks)
  have start : Loose (walkRoute linked spacing nodes loEdge hiEdge spec) spec.amount (walkStart state nodes spec) :=
    ⟨priced_of_range ⟨floor, ceiling.le⟩, spec.amount.isLt, by simp [Booked, walkStart]⟩
  have final := (loop_final (r := walkRoute linked spacing nodes loEdge hiEdge spec) (E := fun _ => True)
    (fun w _ loose _ _ => turn_loose cheap stop spec.amount.isLt loose)
    (fun _ _ _ _ _ => trivial) (fun _ loose => loose) (fun w loose => ⟨loose.priced, loose.small, loose.booked⟩)
    (show (walkStart state nodes spec).steps + maxSteps = maxSteps from Nat.zero_add maxSteps) start).1
  have booked := final.booked
  unfold Booked at booked
  have sat : ∀ n, U256.saturatingU128 n ≤ n := by
    intro n
    unfold U256.saturatingU128
    split <;> omega
  rw [show (walkRoute linked spacing nodes loEdge hiEdge spec).exactIn = spec.exactIn from rfl] at booked
  dsimp only [finish]
  split_ifs at * <;> exact (sat _).trans (by omega)

end Loose

def Next (r : Route) (w w' : Walk) : Prop := w.remaining ≠ 0 ∧ w.sqrt ≠ r.limit ∧ w' = (r.turn w).1

/-- A downward turn crossed the tick above the one the walk is at, and the price has not moved since. -/
def CrossedDown (r : Route) (start : Walk) (sqrt : Nat) (tick : Int) : Prop :=
  r.zeroForOne = true ∧ ∃ before crossed, Relation.ReflTransGen (Next r) start before ∧ Next r before crossed ∧
    (r.stepTarget before.tick before.cursor).1 = tick + 1 ∧ crossed.sqrt = sqrt ∧ crossed.tick = tick

/-- Where the price may meet the tick above: at the end of the domain, where the walk started, or where it
crossed that tick downward. -/
def MeetsAbove (r : Route) (start : Walk) (sqrt : Nat) (tick : Int) : Prop :=
  sqrt = sqrtRatioAtTick (tick + 1) →
    sqrt = maxSqrt ∨ (sqrt = start.sqrt ∧ tick = start.tick) ∨ CrossedDown r start sqrt tick

section Meets

variable {r : Route} {start w : Walk}

theorem turn_meets (fits : r.Fits) (underway : Underway r w) (more : w.remaining ≠ 0) (far : w.sqrt ≠ r.limit)
    (reached : Relation.ReflTransGen (Next r) start w) (meets : MeetsAbove r start w.sqrt w.tick) :
    MeetsAbove r start (r.turn w).1.sqrt (r.turn w).1.tick := by
  obtain ⟨nt, initialised, st, turned⟩ := turn_spec fits underway far
  have result := turned.result
  split_ifs at result with crossed moved
  · intro above
    obtain ⟨low, high⟩ := turned.aimed.bounds
    have price : (r.turn w).1.sqrt = sqrtRatioAtTick nt := by
      rw [result, cross_sqrt]
      exact crossed
    have tick : (r.turn w).1.tick = if r.zeroForOne then nt - 1 else nt := by rw [result, cross_tick]
    cases down : r.zeroForOne
    · rw [down, if_neg Bool.false_ne_true] at tick
      rw [price, tick] at above
      left
      rw [price]
      by_contra ne
      have inside : nt < maxTick := lt_of_le_of_ne high fun top => ne (by rw [top, sqrtRatio_max])
      exact absurd above (sqrtRatio_lt low (by omega) (by omega)).ne
    · rw [down, if_pos rfl] at tick
      refine .inr (.inr ⟨down, w, (r.turn w).1, reached, ⟨more, far, rfl⟩, ?_, rfl, rfl⟩)
      rw [turned.target, tick]
      omega
  · intro above
    obtain ⟨_, strict, _⟩ := turned.moved_place underway crossed moved
    rw [result] at above
    exact absurd above strict.ne
  · have still : st.sqrtNext = w.sqrt := not_not.mp moved
    have price : (r.turn w).1.sqrt = w.sqrt := by
      rw [result]
      exact still
    have tick : (r.turn w).1.tick = w.tick := by
      rw [result]
      rfl
    rw [price, tick]
    exact meets

end Meets

theorem turn_halts {r : Route} {w : Walk} (fits : r.Fits) (underway : Underway r w) (far : w.sqrt ≠ r.limit)
    (halted : (r.turn w).2 = false) : (r.turn w).1.remaining = 0 ∨ (r.turn w).1.sqrt = r.limit := by
  obtain ⟨nt, initialised, st, turned⟩ := turn_spec fits underway far
  have result := turned.result
  split_ifs at result with crossed moved
  · exact absurd halted (by simp [result])
  · rw [result]
    exact turned.ends underway.small crossed
  · exact absurd halted (by simp [result])

structure Ended (r : Route) (amount : Nat) (start w : Walk) : Prop where
  underway : Underway r w
  booked : Booked r amount w
  meets : MeetsAbove r start w.sqrt w.tick

theorem loop_ended {r : Route} {amount : Nat} {start : Walk} (fits : r.Fits) (small : amount < u128Size)
    (fresh : start.steps = 0) (underway : Underway r start) (booked : Booked r amount start) :
    Ended r amount start (r.loop maxSteps start) ∧ ((r.loop maxSteps start).remaining = 0 ∨
      (r.loop maxSteps start).sqrt = r.limit ∨ (r.loop maxSteps start).flags.stepCap = true) := by
  have final := loop_final (r := r) (I := fun w => Ended r amount start w ∧ Relation.ReflTransGen (Next r) start w)
    (F := Ended r amount start) (E := fun w => w.remaining = 0 ∨ w.sqrt = r.limit) (w := start)
    (fun w _ ⟨ended, reached⟩ more far =>
      ⟨⟨turn_underway fits ended.underway far, turn_booked fits ended.underway far small ended.booked,
          turn_meets fits ended.underway more far reached ended.meets⟩, reached.tail ⟨more, far, rfl⟩⟩)
    (fun w ⟨ended, _⟩ _ far halted => turn_halts fits ended.underway far halted)
    (fun w ⟨ended, _⟩ => ended)
    (fun w ⟨⟨⟨seated, toward, place, small, unflagged⟩, booked, meets⟩, _⟩ =>
      ⟨⟨seated, toward, place, small, unflagged⟩, booked, meets⟩)
    (show start.steps + maxSteps = maxSteps by omega) ⟨⟨underway, booked, fun _ => .inr (.inl ⟨rfl, rfl⟩)⟩, .refl⟩
  exact ⟨final.1, by tauto⟩

theorem turn_forward {r : Route} {w : Walk} (fits : r.Fits) (underway : Underway r w) (far : w.sqrt ≠ r.limit) :
    Toward r.zeroForOne w.sqrt (r.turn w).1.sqrt := by
  obtain ⟨nt, initialised, st, turned⟩ := turn_spec fits underway far
  rw [turned.result]
  split_ifs
  · rw [cross_sqrt]
    exact turned.stepped.toward
  all_goals exact turned.stepped.toward

theorem loop_forward {r : Route} {start : Walk} (fits : r.Fits) (fresh : start.steps = 0) (underway : Underway r start) :
    Toward r.zeroForOne start.sqrt (r.loop maxSteps start).sqrt :=
  (loop_final (r := r) (I := fun w => Underway r w ∧ Toward r.zeroForOne start.sqrt w.sqrt) (E := fun _ => True)
    (fun _ _ ⟨on, ahead⟩ _ far => ⟨turn_underway fits on far, ahead.trans (turn_forward fits on far)⟩)
    (fun _ _ _ _ _ => trivial) (fun _ kept => kept.2) (fun _ kept => kept.2)
    (show start.steps + maxSteps = maxSteps by omega) ⟨underway, Toward.refl _ _⟩).1

section Walked

variable {linked edgesKnown : Bool} {spacing loEdge hiEdge : Int} {nodes : List TickNode} {state : PoolState}
  {spec : SwapSpec}

theorem walkRoute_fits (linked : Bool) (ascending : Ascending TickNode.tick nodes)
    (inside : ∀ n ∈ nodes, loEdge ≤ n.tick ∧ n.tick ≤ hiEdge) (low : minTick ≤ loEdge) (high : hiEdge ≤ maxTick)
    (walks : ¬ Refuses state spacing loEdge hiEdge spec) : (walkRoute linked spacing nodes loEdge hiEdge spec).Fits := by
  have least : max loEdge minTick = loEdge := max_eq_left low
  have most : min hiEdge maxTick = hiEdge := min_eq_left high
  obtain ⟨⟨positive, order, _, _, _, cheap⟩, _⟩ := walks_domain walks
  refine ⟨positive, ascending, ?_, ?_, ?_, ?_, cheap, walkRoute_limit linked nodes walks, ?_⟩
  · simpa only [walkRoute, least, most] using inside
  · exact le_max_right _ _
  · exact min_le_right _ _
  · simpa only [walkRoute, least, most] using order
  · dsimp only [walkRoute, edgeTick]
    split_ifs with z
    · exact le_max_right _ _
    · exact min_le_right _ _

theorem walkStart_underway (linked : Bool) (ascending : Ascending TickNode.tick nodes) (low : minTick ≤ loEdge) (high : hiEdge ≤ maxTick)
    (walks : ¬ Refuses state spacing loEdge hiEdge spec) (seated : Seated state.sqrtPrice state.tick)
    (top : spec.zeroForOne = true ∨ (state.sqrtPrice : Nat) ≤ sqrtRatioAtTick hiEdge) :
    Underway (walkRoute linked spacing nodes loEdge hiEdge spec) (walkStart state nodes spec) := by
  obtain ⟨⟨_, _, inside, _⟩, limit⟩ := walks_domain walks
  have bottom := (sqrtRatio_mono inside).trans seated.above
  refine ⟨seated, ?_, upperBound_cursor ascending _, spec.amount.isLt, rfl, rfl⟩
  dsimp only [walkRoute, walkStart, edgeTick]
  rw [max_eq_left low, min_eq_left high]
  unfold Toward
  split_ifs at * with down
  · omega
  · have := top.resolve_left down
    omega

/-- What a walk that was not refused returns. -/
structure Walked (route : Route) (start : Walk) (edge : Nat) (spec : SwapSpec) (res : SwapResult) : Prop where
  beforeLimit : Toward spec.zeroForOne res.after.sqrtPrice spec.limit
  beforeEdge : Toward spec.zeroForOne res.after.sqrtPrice edge
  most : (if spec.exactIn then res.amountIn else res.amountOut) ≤ spec.amount
  ends : res.flags.stepCap = false → res.flags.math = false →
    (if spec.exactIn then res.amountIn else res.amountOut) = spec.amount ∨
      (res.after.sqrtPrice = spec.limit ∧ res.flags.limit = true) ∨
      ((res.after.sqrtPrice : Nat) = edge ∧ res.flags.edge = true)
  above : sqrtRatioAtTick res.after.tick ≤ res.after.sqrtPrice
  below : (res.after.sqrtPrice : Nat) ≤ sqrtRatioAtTick (res.after.tick + 1)
  meets : MeetsAbove route start res.after.sqrtPrice res.after.tick

theorem finish_walked {route : Route} {start w : Walk} {edge : Nat}
    (same : route.zeroForOne = spec.zeroForOne ∧ route.exactIn = spec.exactIn ∧
      route.limit = if spec.zeroForOne then max (spec.limit : Nat) edge else min (spec.limit : Nat) edge)
    (ended : Ended route spec.amount start w)
    (why : w.remaining = 0 ∨ w.sqrt = route.limit ∨ w.flags.stepCap = true) :
    Walked route start edge spec (finish state edge edgesKnown spec route.limit w) := by
  obtain ⟨underway, booked, meets⟩ := ended
  obtain ⟨direction, kind, limit⟩ := same
  have fits160 : w.sqrt < u160Size := underway.seated.priced.fits
  have price : ((finish state edge edgesKnown spec route.limit w).after.sqrtPrice : Nat) = w.sqrt := by
    simp [finish, fits160]
  have toward := underway.toward
  have small := spec.amount.isLt
  have exact : (if spec.exactIn then (finish state edge edgesKnown spec route.limit w).amountIn
      else (finish state edge edgesKnown spec route.limit w).amountOut) = if spec.exactIn then w.totalIn else w.totalOut := by
    unfold Booked at booked
    rw [kind] at booked
    split_ifs at booked ⊢
    · exact if_pos (by omega)
    · exact if_pos (by omega)
  unfold Booked at booked
  rw [kind] at booked
  rw [direction] at toward
  have sides : Toward spec.zeroForOne w.sqrt spec.limit ∧ Toward spec.zeroForOne w.sqrt edge := by
    rw [limit] at toward
    unfold Toward at *
    split_ifs at * <;> omega
  refine ⟨by rw [price]; exact sides.1, by rw [price]; exact sides.2, by rw [exact]; omega, fun uncapped _ => ?_,
    by rw [price]; exact underway.seated.above, by rw [price]; exact underway.seated.below, by rw [price]; exact meets⟩
  by_cases used : w.remaining = 0
  · left
    rw [exact]
    omega
  right
  have reached : w.sqrt = route.limit := by
    rcases why with zero | reached | capped
    · exact absurd zero used
    · exact reached
    · exact absurd capped (by simpa [finish] using uncapped)
  have stopped : w.sqrt = route.limit ∧ w.remaining ≠ 0 := ⟨reached, used⟩
  by_cases binds : route.limit = edge ∧ if spec.zeroForOne then edge > spec.limit else edge < spec.limit
  · refine .inr ⟨by rw [price, reached, binds.1], ?_⟩
    simp [finish, stopped, binds]
  refine .inl ⟨Fin.ext ?_, ?_⟩
  · rw [price, reached]
    split_ifs at limit binds <;> omega
  · simp only [finish, stopped, binds]
    simp [used]

theorem walk_walked (ascending : Ascending TickNode.tick nodes)
    (inside : ∀ n ∈ nodes, loEdge ≤ n.tick ∧ n.tick ≤ hiEdge) (low : minTick ≤ loEdge) (high : hiEdge ≤ maxTick)
    (seated : Seated state.sqrtPrice state.tick)
    (top : spec.zeroForOne = true ∨ (state.sqrtPrice : Nat) ≤ sqrtRatioAtTick hiEdge) :
    ((walk linked state spacing nodes loEdge hiEdge edgesKnown spec).flags.refused = true →
        (walk linked state spacing nodes loEdge hiEdge edgesKnown spec).after = state) ∧
      ((walk linked state spacing nodes loEdge hiEdge edgesKnown spec).flags.refused = false →
        Walked (walkRoute linked spacing nodes loEdge hiEdge spec) (walkStart state nodes spec)
          (sqrtRatioAtTick (if spec.zeroForOne then loEdge else hiEdge)) spec
          (walk linked state spacing nodes loEdge hiEdge edgesKnown spec)) := by
  have edge : edgeTick spec.zeroForOne loEdge hiEdge = if spec.zeroForOne then loEdge else hiEdge := by
    unfold edgeTick
    rw [max_eq_left low, min_eq_left high]
  unfold walk
  split
  · exact ⟨fun _ => rfl, fun walks => absurd walks (by simp [SwapResult.refuse])⟩
  rename_i walks
  have fits := walkRoute_fits linked ascending inside low high walks
  have start := walkStart_underway linked ascending low high walks seated top
  obtain ⟨ended, why⟩ := loop_ended fits spec.amount.isLt rfl start (by simp [Booked, walkStart])
  constructor
  · intro refused
    exact absurd (ended.underway.unflagged.2.symm.trans refused) (by simp)
  intro _
  rw [edge]
  refine finish_walked ⟨rfl, rfl, ?_⟩ ended why
  simp only [walkRoute, edge]

end Walked

section Swap

variable {N : Nat} {m : TickMap N} {state : PoolState}

/-- What a swap over a map returns: the state it was given, or a walk's result. -/
def SwapWalks (poolMeta : PoolMeta) (state : PoolState) (m : TickMap N) (spec : SwapSpec) (res : SwapResult) : Prop :=
  (res.flags.refused = true → res.after = state) ∧
    (res.flags.refused = false →
      Walked (walkRoute (decide (poolMeta.kind = .algebra)) poolMeta.tickSpacing m.nodes m.loTick m.hiTick spec)
        (walkStart state m.nodes spec) (sqrtRatioAtTick (if spec.zeroForOne then m.loTick else m.hiTick)) spec res)

variable (poolMeta : PoolMeta)

theorem walkKind_walks (valid : m.Valid) (seated : Seated state.sqrtPrice state.tick)
    {spec : SwapSpec} (top : spec.zeroForOne = true ∨ (state.sqrtPrice : Nat) ≤ sqrtRatioAtTick m.hiTick) :
    SwapWalks poolMeta state m spec (walkKind poolMeta state m.nodes m.loTick m.hiTick true spec) :=
  walk_walked valid.ascending valid.inside valid.low valid.high seated top

theorem walkKind_forward (valid : m.Valid) (seated : Seated state.sqrtPrice state.tick)
    {spec : SwapSpec} (top : spec.zeroForOne = true ∨ (state.sqrtPrice : Nat) ≤ sqrtRatioAtTick m.hiTick)
    (walked : (walkKind poolMeta state m.nodes m.loTick m.hiTick true spec).flags.refused = false) :
    Toward spec.zeroForOne state.sqrtPrice (walkKind poolMeta state m.nodes m.loTick m.hiTick true spec).after.sqrtPrice := by
  unfold walkKind walk at *
  split at walked
  · cases walked
  rename_i walks
  rw [if_neg walks]
  have fits := walkRoute_fits (decide (poolMeta.kind = .algebra)) valid.ascending valid.inside valid.low valid.high walks
  have start := walkStart_underway (decide (poolMeta.kind = .algebra)) valid.ascending valid.low valid.high walks seated top
  have forward := loop_forward fits rfl start
  unfold finish
  dsimp only
  split
  · exact forward
  · exact Toward.refl _ _

theorem refuse_walks (spec : SwapSpec) : SwapWalks poolMeta state m spec (SwapResult.refuse state) :=
  ⟨fun _ => rfl, fun walks => absurd walks (by simp [SwapResult.refuse])⟩

def onePosition : TickMap 4 := ⟨[⟨-100, 10 ^ 18, 10 ^ 18⟩, ⟨100, 10 ^ 18, -10 ^ 18⟩], -100, 100⟩

theorem onePosition_valid : onePosition.Valid := ⟨by decide, by decide, by decide, by decide⟩

def v3Meta : PoolMeta := ⟨1, .v3⟩

def midPool : PoolState := ⟨⟨2 ^ 96, by decide⟩, ⟨10 ^ 18, by decide⟩, 0, 0, 0, 0, ⟨false, false⟩⟩

/-- A pool on the last tick of the coverage, above the price of the edge. -/
def topPool : PoolState :=
  ⟨⟨79627000000000000000000000000, by decide⟩, ⟨10 ^ 18, by decide⟩, 100, 0, 0, 0, ⟨false, false⟩⟩

def buyUpTo (amount : Fin u128Size) : SwapSpec := ⟨amount, ⟨2 ^ 159, by decide⟩, 3000, false, true⟩

end Swap

section Liquidity

/-- The liquidity is what the nodes up to the tick make of a base, and nothing was clamped. -/
def Carried (nodes : List TickNode) (base : Int) (w : Walk) : Prop :=
  w.flags.liqClamp = false ∧ (w.liq : Int) = base + netTo nodes w.tick

variable {r : Route} {w : Walk} {base : Int} (fits : r.Fits)
  (room : ∀ tick, 0 ≤ base + netTo r.nodes tick ∧ base + netTo r.nodes tick < u128Size)
  (opposite : ∀ n ∈ r.nodes, n.liquidityNet ≠ -i128Size)

include fits room opposite

theorem turn_carried (underway : Underway r w) (far : w.sqrt ≠ r.limit) (carried : Carried r.nodes base w) :
    Carried r.nodes base (r.turn w).1 := by
  obtain ⟨nt, initialised, st, turned⟩ := turn_spec fits underway far
  obtain ⟨unclamped, liq⟩ := carried
  rw [underway.place.netTo_eq] at liq
  rw [Carried, (turn_underway fits underway far).place.netTo_eq, turned.result]
  split_ifs
  · cases initialised
    · exact ⟨unclamped, liq⟩
    obtain ⟨n, passed, place, net⟩ := turned.aimed.node rfl
    have room := room (if r.zeroForOne then nt - 1 else nt)
    rw [place.netTo_eq] at net room
    rw [underway.place.netTo_eq] at net
    have negated : wrappingNeg n.liquidityNet = -n.liquidityNet := if_neg (opposite n (List.mem_of_getElem? passed))
    -- the prefix past the node fits, so the move by its net neither saturates nor clamps
    simp only [Route.cross, Walk.pay, moveLiquidity, passed, Option.elim_some, negated, unclamped, if_true]
    split_ifs at * <;> constructor <;> first | rfl | (dsimp only; omega)
  all_goals exact ⟨unclamped, liq⟩

/-- Where no prefix of the nets leaves the liquidity's word, a whole walk clamps nothing. -/
theorem walk_carries_liquidity (fresh : w.steps = 0) (underway : Underway r w) (carried : Carried r.nodes base w) :
    Carried r.nodes base (r.loop maxSteps w) :=
  (loop_final (I := fun w => Underway r w ∧ Carried r.nodes base w) (F := Carried r.nodes base) (E := fun _ => True)
    (fun _ _ ⟨on, carried⟩ _ far => ⟨turn_underway fits on far, turn_carried fits room opposite on far carried⟩)
    (fun _ _ _ _ _ => trivial) (fun _ kept => kept.2) (fun _ kept => kept.2)
    (show w.steps + maxSteps = maxSteps by omega) ⟨underway, carried⟩).1

end Liquidity

def buyAll : SwapSpec := buyUpTo ⟨10 ^ 30, by decide⟩

theorem bought_out_carries : Carried onePosition.nodes 0
    ((walkRoute false 1 onePosition.nodes (-100) 100 buyAll).loop maxSteps (walkStart midPool onePosition.nodes buyAll)) :=
  have walks : ¬ Refuses midPool 1 (-100) 100 buyAll := by decide +kernel
  walk_carries_liquidity (walkRoute_fits false (by decide) (by decide) (by decide) (by decide) walks)
    (fun tick => by simp only [walkRoute, onePosition, netTo, sumTo, List.filter_cons]; grind [u128Size])
    (by decide) rfl (walkStart_underway false (by decide) (by decide) (by decide) walks
      ⟨by decide, by decide, by decide +kernel, by decide +kernel⟩ (.inr (by decide +kernel))) ⟨rfl, by decide⟩

end TradingEngine.Amm
