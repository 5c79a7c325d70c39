import TradingEngine.Amm.TickMap

/-!
# Edits of the tick map

Each end of a position change replaces the row of one tick, and the two places do not meet.
-/

namespace TradingEngine.Amm.TickMap

open Base Option

variable {N : Nat} {m : TickMap N} {left right : List TickNode} {row : Option TickNode} {tick delta netDelta : Int}

def rowGross (row : Option TickNode) : Nat := row.elim 0 TickNode.gross

def rowNet (row : Option TickNode) : Int := row.elim 0 TickNode.liquidityNet

/-- A node whose gross is known, fits and covers its net. -/
structure SoundNode (n : TickNode) : Prop where
  known : 0 < n.gross
  most : n.gross ≤ maxTickGross
  covers : n.liquidityNet.natAbs ≤ n.gross

structure Accounted (row : Option TickNode) (delta netDelta : Int) (g : Nat) (n : Int) : Prop where
  gross : (g : Int) = rowGross row + delta
  net : n = rowNet row + netDelta
  most : g ≤ maxTickGross
  covers : n.natAbs ≤ g

def newRow (tick : Int) (g : Nat) (n : Int) : Option TickNode := if g = 0 then none else some ⟨tick, g, n⟩

theorem newGross_iff {gross g : Nat} (most : gross ≤ maxTickGross) :
    newGross gross delta = .ok g ↔ (g : Int) = gross + delta ∧ g ≤ maxTickGross := by
  unfold newGross
  split_ifs <;> simp only [Except.ok.injEq, false_iff] <;> omega

theorem newNet_iff {net n : Int} : newNet net netDelta = .ok n ↔ n = net + netDelta ∧ -i128Size ≤ n ∧ n < i128Size := by
  unfold newNet
  split_ifs <;> simp only [Except.ok.injEq, false_iff] <;> omega

theorem planEnd_outside (outside : tick < m.loTick ∨ tick > m.hiTick) : m.planEnd tick delta netDelta = .ok none := by
  simp [planEnd, outside, pure, Except.pure]

theorem planEnd_iff (delta netDelta : Int) (nodes : m.nodes = left ++ (row.toList ++ right)) (spot : Spot TickNode.tick tick left row right)
    (covered : m.loTick ≤ tick ∧ tick ≤ m.hiTick) (sound : ∀ n ∈ row, SoundNode n) (plan : Option EndPlan) :
    m.planEnd tick delta netDelta = .ok plan ↔
      ∃ g n, Accounted row delta netDelta g n ∧ plan = some ⟨left.length, row.isSome, g, n⟩ := by
  have inside : ¬ (tick < m.loTick ∨ tick > m.hiTick) := by omega
  have index : m.lowerBound tick = left.length := by rw [lowerBound, nodes, spot.firstNot_lt]
  have held : m.nodes[left.length]?.filter (fun n => decide (n.tick = tick)) = row := by rw [nodes, spot.head]
  have known : ¬ (row.any fun n => n.gross = 0) := by
    cases row with
    | none => simp
    | some n => simpa using (sound n rfl).known.ne'
  have most : rowGross row ≤ maxTickGross := by
    cases row with
    | none => exact Nat.zero_le _
    | some n => exact (sound n rfl).most
  have plan_eq : m.planEnd tick delta netDelta =
      (newGross (rowGross row) delta).bind fun g => (newNet (rowNet row) netDelta).bind fun n =>
        if g < n.natAbs then .error .tickMapInconsistent else .ok (some ⟨left.length, row.isSome, g, n⟩) := by
    unfold planEnd
    simp only [inside, index, held, known]
    rfl
  rw [plan_eq]
  constructor
  · intro planned
    cases gross : newGross (rowGross row) delta with
    | error e => simp [gross, Except.bind] at planned
    | ok g =>
      cases net : newNet (rowNet row) netDelta with
      | error e => simp [gross, net, Except.bind] at planned
      | ok n =>
        simp only [gross, net, Except.bind] at planned
        obtain ⟨sum, fits⟩ := (newGross_iff most).mp gross
        obtain ⟨total, _⟩ := newNet_iff.mp net
        split at planned
        · exact absurd planned (by simp)
        · exact ⟨g, n, ⟨sum, total, fits, by omega⟩, by simpa using planned.symm⟩
  · rintro ⟨g, n, ⟨sum, total, fits, covers⟩, rfl⟩
    have gross : newGross (rowGross row) delta = .ok g := (newGross_iff most).mpr ⟨sum, fits⟩
    have net : newNet (rowNet row) netDelta = .ok n := by
      refine newNet_iff.mpr ⟨total, ?_, ?_⟩ <;> simp only [maxTickGross, i128Size] at * <;> omega
    simp [gross, net, Except.bind, Nat.not_lt.mpr covers]

theorem mem_newRow {g : Nat} {n : Int} {x : TickNode} (member : x ∈ newRow tick g n) : x = ⟨tick, g, n⟩ ∧ g ≠ 0 := by
  unfold newRow at member
  split at member
  · exact absurd member (by simp)
  · exact ⟨by simpa using member.symm, by assumption⟩

theorem commitEnd_row {g : Nat} {n : Int} (nodes : m.nodes = left ++ (row.toList ++ right))
    (own : ∀ x ∈ row, x.tick = tick) (fits : g ≤ maxTickGross) (used : row.isSome ∨ g ≠ 0) :
    m.commitEnd tick ⟨left.length, row.isSome, g, n⟩ = { m with nodes := left ++ ((newRow tick g n).toList ++ right) } := by
  have whole : g % 2 ^ 96 = g := Nat.mod_eq_of_lt (by unfold maxTickGross at fits; omega)
  unfold commitEnd newRow
  cases row with
  | none =>
    have positive : g ≠ 0 := by simpa using used
    simp only [isSome_none, Bool.false_eq_true, if_false, positive, nodes, TickNode.setGross, whole, toList_none,
      List.nil_append, insertIdx_middle, toList_some, List.cons_append]
  | some x =>
    obtain rfl := own x rfl
    by_cases zero : g = 0
    · simp [zero, nodes, List.eraseIdx_append_of_length_le]
    · simp only [zero, nodes, TickNode.setGross, whole, List.modify_eq_set_getElem?, isSome_some, if_true, if_false]
      simp

def slot (m : TickMap N) (tick : Int) : Nat := if m.loTick ≤ tick ∧ tick ≤ m.hiTick then 1 else 0

/-- How a change moves the row of one end; an end outside the coverage has none. -/
def EndMoves (m : TickMap N) (tick delta netDelta : Int) (row new : Option TickNode) : Prop :=
  (slot m tick = 1 ∧ ∃ g n, Accounted row delta netDelta g n ∧ new = newRow tick g n) ∨
    (slot m tick = 0 ∧ row = none ∧ new = none)

def Carries (N : Nat) (tick : Int) (left : List TickNode) (row new : Option TickNode) (plan : Option EndPlan) : Prop :=
  ∀ (m : TickMap N) (right : List TickNode), m.nodes = left ++ (row.toList ++ right) →
    plan.elim m (m.commitEnd tick) = { m with nodes := left ++ (new.toList ++ right) }

structure Sound (m : TickMap N) : Prop where
  ascending : Ascending TickNode.tick m.nodes
  inside : ∀ n ∈ m.nodes, m.loTick ≤ n.tick ∧ n.tick ≤ m.hiTick
  node : ∀ n ∈ m.nodes, SoundNode n
  fits : m.nodes.length ≤ N

theorem EndMoves.own {new : Option TickNode} (moves : EndMoves m tick delta netDelta row new) :
    ∀ x ∈ new, x.tick = tick := by
  rcases moves with ⟨_, g, n, _, rfl⟩ | ⟨_, _, rfl⟩
  · intro x member
    rw [(mem_newRow member).1]
  · simp

theorem planEnd_moves (netDelta : Int) (sound : Sound m) (nodes : m.nodes = left ++ (row.toList ++ right))
    (spot : Spot TickNode.tick tick left row right) (nonzero : delta ≠ 0) :
    (∀ plan, m.planEnd tick delta netDelta = .ok plan → ∃ new, EndMoves m tick delta netDelta row new ∧
        Carries N tick left row new plan ∧ row.toList.length + inserts plan = slot m tick) ∧
      ∀ new, EndMoves m tick delta netDelta row new → ∃ plan, m.planEnd tick delta netDelta = .ok plan ∧
        Carries N tick left row new plan ∧ row.toList.length + inserts plan = slot m tick := by
  have member : ∀ n ∈ row, n ∈ m.nodes := by
    intro n here
    simp [nodes, mem_def.mp here]
  have good : ∀ n ∈ row, SoundNode n := fun n here => sound.node n (member n here)
  by_cases covered : m.loTick ≤ tick ∧ tick ≤ m.hiTick
  · have one : slot m tick = 1 := if_pos covered
    have planned := fun plan => planEnd_iff delta netDelta nodes spot covered good plan
    have carries : ∀ g n, Accounted row delta netDelta g n →
        Carries N tick left row (newRow tick g n) (some ⟨left.length, row.isSome, g, n⟩) ∧
          row.toList.length + inserts (some ⟨left.length, row.isSome, g, n⟩) = 1 := by
      intro g n accounted
      refine ⟨fun m right nodes => commitEnd_row nodes spot.own accounted.most ?_, ?_⟩
      · cases row with
        | some x => exact .inl rfl
        | none =>
          refine .inr fun zero => nonzero ?_
          simpa [zero, rowGross] using accounted.gross.symm
      · cases row <;> simp [inserts]
    constructor
    · intro plan same
      obtain ⟨g, n, accounted, rfl⟩ := (planned plan).mp same
      refine ⟨_, .inl ⟨one, g, n, accounted, rfl⟩, ?_⟩
      rw [one]
      exact carries g n accounted
    · rintro new (⟨_, g, n, accounted, rfl⟩ | ⟨zero, _⟩)
      · refine ⟨_, (planned _).mpr ⟨g, n, accounted, rfl⟩, ?_⟩
        rw [one]
        exact carries g n accounted
      · omega
  · have zero : slot m tick = 0 := if_neg covered
    have empty : row = none := by
      cases row with
      | none => rfl
      | some n =>
        have inside := sound.inside n (member n rfl)
        rw [spot.own n rfl] at inside
        exact absurd inside covered
    subst empty
    have skipped : m.planEnd tick delta netDelta = .ok none := planEnd_outside (by omega)
    have carries : Carries N tick left none none none := by
      intro m right nodes
      rw [← nodes]
      rfl
    constructor
    · intro plan same
      obtain rfl : none = plan := Except.ok.inj (skipped.symm.trans same)
      exact ⟨none, .inr ⟨zero, rfl, rfl⟩, carries, by simp [inserts, zero]⟩
    · rintro new (⟨one, _⟩ | ⟨_, _, rfl⟩)
      · omega
      · exact ⟨none, skipped, carries, by simp [inserts, zero]⟩

/-- What an accepted change does: nothing, or both ends move, each in its place. -/
inductive Edit (m : TickMap N) (lower upper delta : Int) : TickMap N → Prop
  | idle (nothing : delta = 0 ∨ ¬ m.HasCoverage) : Edit m lower upper delta m
  | moved {left mid right : List TickNode} {rowL rowU newL newU : Option TickNode} (order : lower < upper) (nonzero : delta ≠ 0)
    (covered : m.HasCoverage) (nodes : m.nodes = left ++ (rowL.toList ++ (mid ++ (rowU.toList ++ right))))
    (low : Spot TickNode.tick lower left rowL (mid ++ (rowU.toList ++ right)))
    (high : Spot TickNode.tick upper (left ++ (rowL.toList ++ mid)) rowU right)
    (lowMoves : EndMoves m lower delta delta rowL newL) (highMoves : EndMoves m upper delta (-delta) rowU newU)
    (room : left.length + mid.length + right.length + slot m lower + slot m upper ≤ N) :
    Edit m lower upper delta { m with nodes := left ++ (newL.toList ++ (mid ++ (newU.toList ++ right))) }

variable {lower upper : Int}

theorem places (ascending : Ascending TickNode.tick m.nodes) (lt : lower < upper) :
    ∃ left rowL mid rowU right, m.nodes = left ++ (rowL.toList ++ (mid ++ (rowU.toList ++ right))) ∧
      Spot TickNode.tick lower left rowL (mid ++ (rowU.toList ++ right)) ∧
      Spot TickNode.tick upper (left ++ (rowL.toList ++ mid)) rowU right := by
  obtain ⟨before, rowU, right, nodes, high⟩ := ascending.spot upper
  have rising : Ascending TickNode.tick before := by
    rw [nodes] at ascending
    exact (List.pairwise_append.mp ascending).1
  obtain ⟨left, rowL, mid, rfl, low⟩ := rising.spot lower
  refine ⟨left, rowL, mid, rowU, right, by simpa using nodes, ⟨low.less, low.own, ?_⟩, high⟩
  intro x member
  rcases List.mem_append.mp member with member | member
  · exact low.greater x member
  rcases List.mem_append.mp member with member | member
  · rw [high.own x (by simpa using member)]
    exact lt
  · exact lt.trans (high.greater x member)

theorem commit_both {left mid right : List TickNode} {rowL rowU newL newU : Option TickNode}
    {planL planU : Option EndPlan} (nodes : m.nodes = left ++ (rowL.toList ++ (mid ++ (rowU.toList ++ right))))
    (low : Carries N lower left rowL newL planL) (high : Carries N upper (left ++ (rowL.toList ++ mid)) rowU newU planU) :
    planL.elim (planU.elim m (m.commitEnd upper)) ((planU.elim m (m.commitEnd upper)).commitEnd lower) =
      { m with nodes := left ++ (newL.toList ++ (mid ++ (newU.toList ++ right))) } := by
  have second := high m right (by simpa using nodes)
  rw [second]
  exact low _ (mid ++ (newU.toList ++ right)) (by simp)

theorem applyPosition_iff (sound : Sound m) {m' : TickMap N} :
    m.applyPosition lower upper delta = (.ok (), m') ↔
      (lower < upper ∧ minTick ≤ lower ∧ upper ≤ maxTick ∧ delta ≠ -i128Size) ∧ Edit m lower upper delta m' := by
  unfold applyPosition
  by_cases bad : lower ≥ upper ∨ lower < minTick ∨ upper > maxTick ∨ delta = -i128Size
  · simp only [bad, if_true, Prod.mk.injEq, reduceCtorEq, false_and, false_iff]
    omega
  rw [if_neg bad]
  have guards : lower < upper ∧ minTick ≤ lower ∧ upper ≤ maxTick ∧ delta ≠ -i128Size := by omega
  by_cases nothing : delta = 0 ∨ ¬ m.HasCoverage
  · simp only [nothing, if_true, Prod.mk.injEq, true_and]
    constructor
    · rintro rfl
      exact ⟨guards, .idle nothing⟩
    · rintro ⟨_, _ | ⟨_, nonzero, covered⟩⟩
      · rfl
      · exact absurd nothing (by tauto)
  rw [if_neg nothing]
  obtain ⟨nonzero, covered⟩ : delta ≠ 0 ∧ m.HasCoverage := by tauto
  constructor
  · intro same
    obtain ⟨left, rowL, mid, rowU, right, nodes, low, high⟩ := places sound.ascending guards.1
    have planL := (planEnd_moves delta sound nodes low nonzero).1
    have planU := (planEnd_moves (-delta) sound (by simpa using nodes) high nonzero).1
    have total := congrArg List.length nodes
    simp only [List.length_append] at total
    split at same
    · exact absurd same (by simp)
    rename_i first planned
    obtain ⟨newL, lowMoves, lowCarries, lowCount⟩ := planL _ planned
    split at same
    · exact absurd same (by simp)
    rename_i second planned
    obtain ⟨newU, highMoves, highCarries, highCount⟩ := planU _ planned
    split at same
    · exact absurd same (by simp)
    · simp only [commit_both nodes lowCarries highCarries, Prod.mk.injEq, true_and] at same
      subst same
      exact ⟨guards, .moved guards.1 nonzero covered nodes low high lowMoves highMoves (by omega)⟩
  · rintro ⟨_, idle | @⟨left, mid, right, rowL, rowU, newL, newU, _, _, _, nodes, low, high, lowMoves, highMoves, room⟩⟩
    · contradiction
    obtain ⟨planL, first, lowCarries, lowCount⟩ := (planEnd_moves delta sound nodes low nonzero).2 _ lowMoves
    obtain ⟨planU, second, highCarries, highCount⟩ :=
      (planEnd_moves (-delta) sound (by simpa using nodes) high nonzero).2 _ highMoves
    have total := congrArg List.length nodes
    simp only [List.length_append] at total
    simp only [first, second]
    rw [if_neg (by omega)]
    simp only [commit_both nodes lowCarries highCarries]

theorem rowGross_newRow {g : Nat} {n : Int} : rowGross (newRow tick g n) = g := by
  unfold newRow rowGross
  split <;> simp [*]

theorem rowNet_newRow {g : Nat} {n : Int} (covers : n.natAbs ≤ g) : rowNet (newRow tick g n) = n := by
  unfold newRow rowNet
  split
  · rw [elim_none]
    omega
  · rfl

theorem newRow_row (sound : ∀ n ∈ row, SoundNode n) (own : ∀ n ∈ row, n.tick = tick) :
    newRow tick (rowGross row) (rowNet row) = row := by
  cases row with
  | none => rfl
  | some n =>
    have known := (sound n rfl).known.ne'
    obtain rfl := own n rfl
    simp [newRow, rowGross, rowNet, known]

variable {new : Option TickNode}

theorem EndMoves.sound (moves : EndMoves m tick delta netDelta row new) :
    ∀ n ∈ new, SoundNode n ∧ m.loTick ≤ n.tick ∧ n.tick ≤ m.hiTick := by
  rcases moves with ⟨one, g, n, accounted, rfl⟩ | ⟨_, _, rfl⟩
  · intro x member
    obtain ⟨rfl, positive⟩ := mem_newRow member
    refine ⟨⟨Nat.pos_of_ne_zero positive, accounted.most, accounted.covers⟩, ?_⟩
    by_contra outside
    simp [slot, outside] at one
  · simp

theorem EndMoves.back (moves : EndMoves m tick delta netDelta row new) (sound : ∀ n ∈ row, SoundNode n)
    (own : ∀ n ∈ row, n.tick = tick) : EndMoves m tick (-delta) (-netDelta) new row := by
  rcases moves with ⟨one, g, n, ⟨gross, net, most, covers⟩, rfl⟩ | ⟨zero, rfl, rfl⟩
  · refine .inl ⟨one, rowGross row, rowNet row, ⟨?_, ?_, ?_, ?_⟩, (newRow_row sound own).symm⟩
    · rw [rowGross_newRow]
      omega
    · rw [rowNet_newRow covers]
      omega
    · cases row with
      | none => exact Nat.zero_le _
      | some x => exact (sound x rfl).most
    · cases row with
      | none => exact Nat.zero_le _
      | some x => exact (sound x rfl).covers
  · exact .inr ⟨zero, rfl, rfl⟩

theorem spots_replace {left mid right : List TickNode} {rowL rowU newL newU : Option TickNode} (order : lower < upper)
    (low : Spot TickNode.tick lower left rowL (mid ++ (rowU.toList ++ right)))
    (high : Spot TickNode.tick upper (left ++ (rowL.toList ++ mid)) rowU right) (ownL : ∀ x ∈ newL, x.tick = lower)
    (ownU : ∀ x ∈ newU, x.tick = upper) :
    Spot TickNode.tick lower left newL (mid ++ (newU.toList ++ right)) ∧
      Spot TickNode.tick upper (left ++ (newL.toList ++ mid)) newU right := by
  refine ⟨⟨low.less, ownL, fun x member => ?_⟩, fun x member => ?_, ownU, high.greater⟩
  · simp only [List.mem_append, mem_toList] at member
    rcases member with member | member | member
    · exact low.greater x (by simp [member])
    · rw [ownU x member]
      exact order
    · exact low.greater x (by simp [member])
  · simp only [List.mem_append, mem_toList] at member
    rcases member with member | member | member
    · exact high.less x (by simp [member])
    · rw [ownL x member]
      exact order
    · exact high.less x (by simp [member])

variable {m' : TickMap N}

theorem Edit.coverage (edit : Edit m lower upper delta m') : m'.loTick = m.loTick ∧ m'.hiTick = m.hiTick := by
  cases edit <;> exact ⟨rfl, rfl⟩

theorem Edit.sound (edit : Edit m lower upper delta m') (sound : Sound m) : Sound m' := by
  rcases edit with nothing | @⟨left, mid, right, rowL, rowU, newL, newU, order, _, _, nodes, low, high, lowMoves, highMoves, room⟩
  · exact sound
  obtain ⟨low', _⟩ := spots_replace order low high low.own highMoves.own
  have old : ∀ x, x ∈ left ∨ x ∈ mid ∨ x ∈ right → SoundNode x ∧ m.loTick ≤ x.tick ∧ x.tick ≤ m.hiTick := by
    intro x kept
    have member : x ∈ m.nodes := by
      rw [nodes]
      simp only [List.mem_append]
      tauto
    exact ⟨sound.node x member, sound.inside x member⟩
  have holds : ∀ x ∈ left ++ (newL.toList ++ (mid ++ (newU.toList ++ right))),
      SoundNode x ∧ m.loTick ≤ x.tick ∧ x.tick ≤ m.hiTick := by
    intro x member
    simp only [List.mem_append, mem_toList] at member
    rcases member with member | member | member | member | member
    · exact old x (by tauto)
    · exact lowMoves.sound x member
    · exact old x (by tauto)
    · exact highMoves.sound x member
    · exact old x (by tauto)
  refine ⟨?_, fun x member => (holds x member).2, fun x member => (holds x member).1, ?_⟩
  · have ascending := sound.ascending
    rw [nodes, show left ++ (rowL.toList ++ (mid ++ (rowU.toList ++ right))) =
      left ++ (rowL.toList ++ mid) ++ (rowU.toList ++ right) by simp] at ascending
    have half := high.ascending highMoves.own ascending
    exact low'.ascending lowMoves.own (by simpa using half)
  · have count : ∀ {tick delta netDelta row new}, EndMoves m tick delta netDelta row new → new.toList.length ≤ slot m tick := by
      rintro tick delta netDelta row new (⟨one, _⟩ | ⟨_, _, rfl⟩)
      · rw [one]
        cases new <;> simp
      · simp
    have first := count lowMoves
    have second := count highMoves
    simp only [List.length_append]
    omega

theorem Edit.undo (edit : Edit m lower upper delta m') (sound : Sound m) : Edit m' lower upper (-delta) m := by
  rcases edit with nothing | @⟨left, mid, right, rowL, rowU, newL, newU, order, nonzero, covered, nodes, low, high, lowMoves, highMoves, room⟩
  · exact .idle (by simpa using nothing)
  obtain ⟨low', high'⟩ := spots_replace order low high lowMoves.own highMoves.own
  have member : ∀ n, n ∈ rowL ∨ n ∈ rowU → SoundNode n := by
    intro n either
    refine sound.node n ?_
    rw [nodes]
    simp only [List.mem_append, mem_toList]
    tauto
  have back := Edit.moved (m := { m with nodes := left ++ (newL.toList ++ (mid ++ (newU.toList ++ right))) }) order
    (neg_ne_zero.mpr nonzero) covered rfl low' high' (lowMoves.back (fun n here => member n (.inl here)) low.own)
    (highMoves.back (fun n here => member n (.inr here)) high.own) room
  rwa [← nodes] at back

def rowAt (m : TickMap N) (tick : Int) : Option TickNode := lookup TickNode.tick m.nodes tick

def grossShare (lower upper delta tick : Int) : Int := if tick = lower ∨ tick = upper then delta else 0

def netShare (lower upper delta tick : Int) : Int := if tick = lower then delta else if tick = upper then -delta else 0

theorem EndMoves.weights (moves : EndMoves m tick delta netDelta row new) (covered : slot m tick = 1) :
    (rowGross new : Int) = rowGross row + delta ∧ rowNet new = rowNet row + netDelta := by
  rcases moves with ⟨_, g, n, accounted, rfl⟩ | ⟨zero, _⟩
  · rw [rowGross_newRow, rowNet_newRow accounted.covers]
    exact ⟨accounted.gross, accounted.net⟩
  · omega

theorem Edit.weights (edit : Edit m lower upper delta m') (covered : m.loTick ≤ tick ∧ tick ≤ m.hiTick) :
    (rowGross (m'.rowAt tick) : Int) = rowGross (m.rowAt tick) + grossShare lower upper delta tick ∧
      rowNet (m'.rowAt tick) = rowNet (m.rowAt tick) + netShare lower upper delta tick := by
  have one : slot m tick = 1 := if_pos covered
  rcases edit with nothing | @⟨left, mid, right, rowL, rowU, newL, newU, order, _, _, nodes, low, high, lowMoves, highMoves, _⟩
  · have zero : delta = 0 := by
      rcases nothing with zero | uncovered
      · exact zero
      · exact absurd (le_trans covered.1 covered.2) uncovered
    simp [grossShare, netShare, zero]
  obtain ⟨low', high'⟩ := spots_replace order low high lowMoves.own highMoves.own
  have assoc : ∀ rowL rowU : Option TickNode, left ++ (rowL.toList ++ (mid ++ (rowU.toList ++ right))) =
      left ++ (rowL.toList ++ mid) ++ (rowU.toList ++ right) := by
    intro rowL rowU
    simp
  unfold rowAt grossShare netShare
  rw [nodes]
  by_cases isLower : tick = lower
  · subst isLower
    simpa [low.lookup_self, low'.lookup_self] using lowMoves.weights one
  by_cases isUpper : tick = upper
  · subst isUpper
    rw [assoc rowL rowU, assoc newL newU, high.lookup_self, high'.lookup_self]
    simpa [isLower] using highMoves.weights one
  · have half := (spots_replace order low high lowMoves.own high.own).2
    have first := low.lookup_other lowMoves.own isLower
    rw [assoc newL newU, half.lookup_other highMoves.own isUpper, ← assoc, first]
    simp [isLower, isUpper]

structure Change where
  lower : Int
  upper : Int
  delta : Int
  whole : -i128Size ≤ delta ∧ delta < i128Size
  deriving DecidableEq

def edit (m : TickMap N) (c : Change) : TickMap N := (m.applyPosition c.lower c.upper c.delta).2

def Accepts (m : TickMap N) (c : Change) : Prop := (m.applyPosition c.lower c.upper c.delta).1 = .ok ()

instance (m : TickMap N) (c : Change) : Decidable (m.Accepts c) :=
  match same : (m.applyPosition c.lower c.upper c.delta).1 with
  | .ok () => .isTrue same
  | .error _ => .isFalse (by simp [Accepts, same])

def accepted : TickMap N → List Change → List Change
  | _, [] => []
  | m, c :: rest => if m.Accepts c then c :: accepted (m.edit c) rest else accepted (m.edit c) rest

def grossOf (cs : List Change) (tick : Int) : Int := (cs.map fun c => grossShare c.lower c.upper c.delta tick).sum

def netOf (cs : List Change) (tick : Int) : Int := (cs.map fun c => netShare c.lower c.upper c.delta tick).sum

theorem applyPosition_error {e : AmmError} (failed : (m.applyPosition lower upper delta).1 = .error e) :
    (m.applyPosition lower upper delta).2 = m := by
  unfold applyPosition at failed ⊢
  split_ifs with bad nothing
  · rfl
  · rfl
  rw [if_neg bad, if_neg nothing] at failed
  split at failed
  · rfl
  split at failed
  · rfl
  split at failed
  · rename_i full
    rw [if_pos full]
  · exact absurd failed (by simp)

theorem edit_cases (sound : Sound m) (c : Change) :
    (m.Accepts c ∧ Edit m c.lower c.upper c.delta (m.edit c)) ∨ (¬ m.Accepts c ∧ m.edit c = m) := by
  by_cases accepts : m.Accepts c
  · exact .inl ⟨accepts, ((applyPosition_iff sound).mp (Prod.ext accepts rfl)).2⟩
  refine .inr ⟨accepts, ?_⟩
  cases outcome : (m.applyPosition c.lower c.upper c.delta).1 with
  | ok value => exact absurd outcome accepts
  | error e => exact applyPosition_error outcome

theorem edits_collect (cs : List Change) (sound : Sound m) :
    Sound (run edit m cs) ∧ (run edit m cs).loTick = m.loTick ∧ (run edit m cs).hiTick = m.hiTick ∧
      ∀ tick, m.loTick ≤ tick ∧ tick ≤ m.hiTick →
        (rowGross ((run edit m cs).rowAt tick) : Int) = rowGross (m.rowAt tick) + grossOf (m.accepted cs) tick ∧
          rowNet ((run edit m cs).rowAt tick) = rowNet (m.rowAt tick) + netOf (m.accepted cs) tick := by
  induction cs generalizing m with
  | nil => exact ⟨sound, rfl, rfl, fun tick _ => by simp [run, accepted, grossOf, netOf]⟩
  | cons c rest ih =>
    rcases edit_cases sound c with ⟨accepts, edit⟩ | ⟨refuses, same⟩
    · obtain ⟨low, high⟩ := edit.coverage
      obtain ⟨sound', low', high', weights⟩ := ih (edit.sound sound)
      refine ⟨sound', low'.trans low, high'.trans high, fun tick covered => ?_⟩
      have step := edit.weights covered
      have tail := weights tick (by rw [low, high]; exact covered)
      simp only [run, accepted, accepts, if_true, grossOf, netOf, List.map_cons, List.sum_cons] at tail ⊢
      omega
    · simp only [run, accepted, refuses, if_false, same]
      exact ih sound

def blank (N : Nat) (loTick hiTick : Int) : TickMap N := ⟨[], loTick, hiTick⟩

theorem blank_sound (loTick hiTick : Int) : Sound (blank N loTick hiTick) :=
  ⟨Ascending.nil _, by simp [blank], by simp [blank], Nat.zero_le _⟩

/-- Edits from a map without nodes: the list stays ascending, inside the coverage and covered, it is the fold
of the accepted changes, an error leaves it alone, and the opposite of an accepted change takes it back. -/
theorem edits_fold (N : Nat) (loTick hiTick : Int) (cs : List Change) :
    Ascending TickNode.tick (run edit (blank N loTick hiTick) cs).nodes ∧
      (∀ n ∈ (run edit (blank N loTick hiTick) cs).nodes,
        (loTick ≤ n.tick ∧ n.tick ≤ hiTick) ∧ 0 < n.gross ∧ n.liquidityNet.natAbs ≤ n.gross ∧
          (n.gross : Int) = grossOf ((blank N loTick hiTick).accepted cs) n.tick ∧
          n.liquidityNet = netOf ((blank N loTick hiTick).accepted cs) n.tick) ∧
      (∀ tick, loTick ≤ tick → tick ≤ hiTick →
        ((∃ n ∈ (run edit (blank N loTick hiTick) cs).nodes, n.tick = tick) ↔
          0 < grossOf ((blank N loTick hiTick).accepted cs) tick)) ∧
      (∀ (c : Change) (e : AmmError),
        ((run edit (blank N loTick hiTick) cs).applyPosition c.lower c.upper c.delta).1 = .error e →
          ((run edit (blank N loTick hiTick) cs).applyPosition c.lower c.upper c.delta).2 =
            run edit (blank N loTick hiTick) cs) ∧
      ∀ (c : Change) (m : TickMap N),
        (run edit (blank N loTick hiTick) cs).applyPosition c.lower c.upper c.delta = (.ok (), m) →
          m.applyPosition c.lower c.upper (-c.delta) = (.ok (), run edit (blank N loTick hiTick) cs) := by
  obtain ⟨sound, low, high, weights⟩ := edits_collect cs (blank_sound (N := N) loTick hiTick)
  generalize run edit (blank N loTick hiTick) cs = m at sound low high weights ⊢
  generalize (blank N loTick hiTick).accepted cs = changes at weights ⊢
  have fold : ∀ tick, loTick ≤ tick → tick ≤ hiTick → (rowGross (m.rowAt tick) : Int) = grossOf changes tick ∧
      rowNet (m.rowAt tick) = netOf changes tick := by
    intro tick above below
    simpa [rowAt, blank, lookup, rowGross, rowNet] using weights tick ⟨above, below⟩
  refine ⟨sound.ascending, fun n member => ?_, fun tick above below => ⟨?_, fun positive => ?_⟩, ?_, ?_⟩
  · have inside := sound.inside n member
    rw [low, high] at inside
    obtain ⟨gross, net⟩ := fold n.tick inside.1 inside.2
    rw [rowAt, sound.ascending.lookup_mem member] at gross net
    exact ⟨inside, (sound.node n member).known, (sound.node n member).covers, gross, net⟩
  · rintro ⟨n, member, rfl⟩
    have gross := (fold n.tick above below).1
    rw [rowAt, sound.ascending.lookup_mem member] at gross
    have known := (sound.node n member).known
    rw [← gross]
    exact_mod_cast known
  · rw [← (fold tick above below).1] at positive
    cases found : m.rowAt tick with
    | none => simp [found, rowGross] at positive
    | some n => exact ⟨n, mem_of_lookup found, lookup_key found⟩
  · exact fun c e => applyPosition_error
  · intro c m' accepted
    obtain ⟨⟨order, least, greatest, nonmin⟩, edit⟩ := (applyPosition_iff sound).mp accepted
    have most := c.whole.2
    exact (applyPosition_iff (edit.sound sound)).mpr ⟨⟨order, least, greatest, by omega⟩, edit.undo sound⟩

example : (run edit (blank 4 (-20) 20) [⟨-10, 10, 7, by decide⟩, ⟨10, 20, 5, by decide⟩, ⟨-10, 10, -7, by decide⟩]).nodes =
    [⟨10, 5, 5⟩, ⟨20, 5, -5⟩] := by decide

end TradingEngine.Amm.TickMap
