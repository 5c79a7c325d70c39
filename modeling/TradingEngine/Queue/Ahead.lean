import TradingEngine.Queue.Turns

/-!
# The queue ahead

Where every displayed size is a real one, a queue ahead that is known stays known and never grows.
-/

namespace TradingEngine.Queue

open Base CoreTypes List Option QueueBook

variable {h k : Held} {tb : Touch} {done : List Held}

def Sized (qty : Int) : Prop := 0 ≤ qty ∧ qty ≤ i64Max

def Touch.Displayed (touch : Touch) : Prop := Sized touch.bidQty1e6 ∧ Sized touch.askQty1e6

theorem Touch.Displayed.qty {touch : Touch} (displayed : touch.Displayed) (side : Side) : Sized (touch.qty side) := by
  cases side
  · exact displayed.1
  · exact displayed.2

/-- A pending order has joined no queue; a resting one is behind a real one, or behind the touch. -/
def Held.Calm (h : Held) : Prop :=
  (h.order.state = .pending → h.order.ahead1e6 = aheadUnknown) ∧
    (h.order.ahead1e6 = aheadUnknown ∨ Sized h.order.ahead1e6) ∧ 0 < h.order.remaining1e6

/-- The same order with no more ahead of it. -/
def Held.Ebbs (h k : Held) : Prop :=
  k.uid = h.uid ∧ (0 ≤ h.order.ahead1e6 → 0 ≤ k.order.ahead1e6 ∧ k.order.ahead1e6 ≤ h.order.ahead1e6)

theorem Held.Ebbs.refl (h : Held) : h.Ebbs h := ⟨rfl, fun known => ⟨known, Int.le_refl _⟩⟩

theorem Held.Ebbs.trans {l : Held} (first : h.Ebbs k) (second : k.Ebbs l) : h.Ebbs l := by
  refine ⟨second.1.trans first.1, fun known => ?_⟩
  obtain ⟨known, less⟩ := first.2 known
  obtain ⟨known, less'⟩ := second.2 known
  exact ⟨known, less'.trans less⟩

theorem Held.Ebbs.joins (same : k.uid = h.uid) (unknown : h.order.ahead1e6 = aheadUnknown) : h.Ebbs k := by
  refine ⟨same, fun known => ?_⟩
  rw [unknown] at known
  exact absurd known (by decide)

theorem joins_sized (o : QueueOrder) {known : Bool} (displayed : known = true → tb.Displayed) :
    o.joins known tb = aheadUnknown ∨ Sized (o.joins known tb) := by
  unfold QueueOrder.joins
  split
  · exact .inl rfl
  rename_i seen
  split
  · exact .inr ((displayed (by simpa using seen)).qty o.side)
  · split
    · exact .inr ⟨Int.le_refl 0, by decide⟩
    · exact .inl rfl

theorem land_ebbs {sym : SymbolId} {tNs : Nat} {known : Bool} {parity : Bool}
    (displayed : known = true → tb.Displayed) {rest : List Held} {out : Outbox} (calm : h.Calm)
    (result : (land sym tNs known tb parity done h rest out).1 = some k) : k.Calm ∧ h.Ebbs k := by
  unfold land at result
  dsimp only at result
  split at result
  · obtain rfl := some.inj result
    exact ⟨calm, .refl _⟩
  rename_i due
  push Not at due
  split at result
  · exact nomatch result
  split at result
  · exact nomatch result
  split at result
  · exact nomatch result
  · obtain rfl := some.inj result
    exact ⟨⟨fun pending => (nomatch pending), joins_sized h.order displayed, calm.2.2⟩, .joins rfl (calm.1 due.2.1)⟩

theorem lapse_ebbs {sym : SymbolId} {tNs : Nat} {rest : List Held} {out : Outbox} (calm : h.Calm)
    (result : (lapse sym tNs done h rest out).1 = some k) : k.Calm ∧ h.Ebbs k := by
  unfold lapse at result
  dsimp only at result
  split at result
  · exact nomatch result
  · obtain rfl := some.inj result
    exact ⟨calm, .refl _⟩

theorem meets_ebbs {o : QueueOrder} (px : Int) {left : Int} (sized : Sized left) (positive : 0 < o.remaining1e6)
    (ahead : o.ahead1e6 = aheadUnknown ∨ Sized o.ahead1e6) :
    ((o.meets px left).1 = aheadUnknown ∨ Sized (o.meets px left).1) ∧ Sized (o.meets px left).2.2 ∧
      (0 ≤ o.ahead1e6 → 0 ≤ (o.meets px left).1 ∧ (o.meets px left).1 ≤ o.ahead1e6) := by
  obtain ⟨nonneg, top⟩ := sized
  unfold QueueOrder.meets
  split
  · exact ⟨ahead, ⟨nonneg, top⟩, fun known => ⟨known, Int.le_refl _⟩⟩
  split
  · rename_i at'
    obtain ⟨ahead_nonneg, ahead_top⟩ := ahead.resolve_left at'.2
    have bottom : i64Min ≤ 0 := by decide
    have take : ∀ take : Int, 0 ≤ take → take ≤ left → take ≤ o.ahead1e6 →
        i64Wrap (left - take) = left - take ∧ i64Wrap (o.ahead1e6 - take) = o.ahead1e6 - take := by
      intro take low fits enough
      exact ⟨wrap_of_inI64 ⟨by omega, by omega⟩, wrap_of_inI64 ⟨by omega, by omega⟩⟩
    dsimp only
    split
    · obtain ⟨behind, rest⟩ := take o.ahead1e6 ahead_nonneg (by omega) (Int.le_refl _)
      rw [behind, rest]
      refine ⟨.inr ⟨by omega, by omega⟩, ?_, fun _ => ⟨by omega, by omega⟩⟩
      unfold Sized
      split <;> omega
    · obtain ⟨behind, rest⟩ := take left nonneg (Int.le_refl _) (by omega)
      rw [behind, rest]
      refine ⟨.inr ⟨by omega, by omega⟩, ?_, fun _ => ⟨by omega, by omega⟩⟩
      unfold Sized
      split <;> omega
  · exact ⟨ahead, ⟨nonneg, top⟩, fun known => ⟨known, Int.le_refl _⟩⟩

theorem takes_ebbs {sym : SymbolId} {px : Int} {hit : Side} {tNs : Nat} {rest : List Held}
    {s : Int × Outbox} (calm : h.Calm) (left : Sized s.1) :
    (∀ k, (takes sym px hit tNs done h rest s).1 = some k → k.Calm ∧ h.Ebbs k) ∧ Sized (takes sym px hit tNs done h rest s).2.1 := by
  obtain ⟨sized, less, ebbs⟩ := meets_ebbs px left calm.2.2 calm.2.1
  unfold takes
  dsimp only
  split
  · refine ⟨fun k result => ?_, left⟩
    obtain rfl := some.inj result
    exact ⟨calm, .refl _⟩
  rename_i mine
  push Not at mine
  have resting : h.order.state ≠ .pending := by
    rw [mine.2.1]
    decide
  split
  · refine ⟨fun k result => ?_, less⟩
    obtain rfl := some.inj result
    exact ⟨⟨fun pending => absurd pending resting, sized, calm.2.2⟩, rfl, ebbs⟩
  split
  · rename_i more
    refine ⟨fun k result => ?_, less⟩
    obtain rfl := some.inj result
    exact ⟨⟨fun pending => absurd pending resting, sized, more⟩, rfl, ebbs⟩
  · exact ⟨fun k result => (nomatch result), less⟩

structure CalmBook (b : QueueBook) : Prop where
  orders : ∀ h ∈ b.orders, h.Calm
  touches : ∀ s ∈ b.syms, s.known = true → s.touch.Displayed

/-- Every order left had at least as much ahead of it, where that was known. -/
def Ebbed (b c : QueueBook) : Prop := ∀ k ∈ c.orders, ∃ h ∈ b.orders, h.Ebbs k

theorem Ebbed.refl (b : QueueBook) : Ebbed b b := fun k member => ⟨k, member, .refl k⟩

theorem Ebbed.trans {b c d : QueueBook} (first : Ebbed b c) (second : Ebbed c d) : Ebbed b d := by
  intro l member
  obtain ⟨k, member, later⟩ := second l member
  obtain ⟨h, member, earlier⟩ := first k member
  exact ⟨h, member, earlier.trans later⟩

section Book

variable {b : QueueBook} {tNs : Nat} {sym : SymbolId}

theorem advance_ebbs (sym : SymbolId) (tNs : Nat) (calm : CalmBook b) :
    CalmBook (b.advance sym tNs) ∧ Ebbed b (b.advance sym tNs) := by
  unfold advance
  cases found : b.symTouch sym with
  | none => exact ⟨calm, .refl b⟩
  | some s =>
    have shown : s.known = true → s.touch.Displayed := calm.touches s (mem_of_find?_eq_some found)
    have landed := visit_each (f := land sym tNs s.known s.touch b.paritySim) (S := fun _ => True) (R := Held.Ebbs)
      (s := b.out) (fun _ _ _ _ calm _ => ⟨fun _ result => land_ebbs shown calm result, trivial⟩) calm.orders trivial
    have lapsed := visit_each (f := lapse sym tNs) (S := fun _ => True) (R := Held.Ebbs)
      (s := (visit (land sym tNs s.known s.touch b.paritySim) [] b.orders b.out).2)
      (fun _ _ _ _ calm _ => ⟨fun _ result => lapse_ebbs calm result, trivial⟩)
      (fun k member => (landed k member).1) trivial
    refine ⟨⟨fun l member => (lapsed l member).1, calm.touches⟩, fun l member => ?_⟩
    obtain ⟨_, k, left, later⟩ := lapsed l member
    obtain ⟨_, h, first, earlier⟩ := landed k left
    exact ⟨h, first, earlier.trans later⟩

theorem advanceVenue_ebbs (sym : SymbolId) (tNs : Nat) (calm : CalmBook b) :
    CalmBook (b.advanceVenue sym tNs) ∧ Ebbed b (b.advanceVenue sym tNs) := by
  have pass : ∀ (todo : List SymTouch) (c : QueueBook), CalmBook c → CalmBook (todo.foldl (advanceOther sym tNs) c) ∧
        Ebbed c (todo.foldl (advanceOther sym tNs) c) := by
    intro todo
    induction todo with
    | nil => exact fun c calm => ⟨calm, .refl c⟩
    | cons s todo ih =>
      intro c calm
      rw [foldl_cons]
      unfold advanceOther
      split
      · obtain ⟨calm, first⟩ := advance_ebbs s.sym tNs calm
        obtain ⟨calm, second⟩ := ih _ calm
        exact ⟨calm, first.trans second⟩
      · exact ih c calm
  unfold advanceVenue
  split
  · exact ⟨calm, .refl b⟩
  · exact pass b.syms b calm

theorem learn_calm {touch : Touch} (displayed : touch.Displayed) (calm : CalmBook b) :
    CalmBook (b.learn sym touch) := by
  refine ⟨calm.orders, ?_⟩
  have pass : ∀ syms : List SymTouch, (∀ s ∈ syms, s.known = true → s.touch.Displayed) →
      ∀ s ∈ learnIn sym touch syms, s.known = true → s.touch.Displayed := by
    intro syms
    induction syms with
    | nil => exact fun all => all
    | cons t rest ih =>
      intro all s member
      rw [learnIn] at member
      split at member
      · rcases mem_cons.mp member with rfl | later
        · exact fun _ => displayed
        · exact all s (mem_cons_of_mem _ later)
      · rcases mem_cons.mp member with rfl | later
        · exact all s mem_cons_self
        · exact ih (fun s member => all s (mem_cons_of_mem _ member)) s later
  exact pass b.syms calm.touches

theorem joinTouch_ebbs (displayed : tb.Displayed) (calm : h.Calm) :
    (joinTouch sym tb h).Calm ∧ h.Ebbs (joinTouch sym tb h) := by
  unfold joinTouch
  dsimp only
  split
  · rename_i joins
    obtain ⟨_, resting, unknown, _⟩ := joins
    refine ⟨⟨fun pending => ?_, .inr (displayed.qty _), calm.2.2⟩, .joins rfl unknown⟩
    rw [resting] at pending
    exact nomatch pending
  · exact ⟨calm, .refl h⟩

theorem onBook_ebbs {touch : Touch} (displayed : touch.Displayed) (calm : CalmBook b) :
    CalmBook (b.onBook sym touch tNs) ∧ Ebbed b (b.onBook sym touch tNs) := by
  obtain ⟨calm, first⟩ := advanceVenue_ebbs sym tNs calm
  unfold onBook
  dsimp only
  generalize b.advanceVenue sym tNs = c at calm first ⊢
  have learns : ∀ (p : Prop) [Decidable p] (d : QueueBook), CalmBook d → Ebbed b d →
      CalmBook (if p then d.learn sym touch else d) ∧ Ebbed b (if p then d.learn sym touch else d) := by
    intro p _ d calm ebbed
    split
    · exact ⟨learn_calm displayed calm, ebbed⟩
    · exact ⟨calm, ebbed⟩
  cases c.symTouch sym with
  | none => exact ⟨calm, first⟩
  | some s =>
    dsimp only
    obtain ⟨calm, first⟩ := learns (c.paritySim = true ∧ touch.twoSided = true) c calm first
    obtain ⟨calm, second⟩ := advance_ebbs sym tNs calm
    generalize (if c.paritySim = true ∧ touch.twoSided = true then c.learn sym touch else c) = d at calm first second ⊢
    obtain ⟨calm, second⟩ := learns ((d.advance sym tNs).paritySim = false ∧ touch.twoSided = true) _ calm
      (first.trans second)
    generalize (if (d.advance sym tNs).paritySim = false ∧ touch.twoSided = true then
      (d.advance sym tNs).learn sym touch else d.advance sym tNs) = e at calm second ⊢
    cases found : e.symTouch sym with
    | none => exact ⟨calm, second⟩
    | some s =>
      dsimp only
      split
      · exact ⟨calm, second⟩
      rename_i known
      have shown := calm.touches s (mem_of_find?_eq_some found) (by simpa using known)
      refine ⟨⟨fun k member => ?_, calm.touches⟩, fun k member => ?_⟩
      · obtain ⟨h, listed, rfl⟩ := mem_map.mp member
        exact (joinTouch_ebbs shown (calm.orders h listed)).1
      · obtain ⟨h, listed, rfl⟩ := mem_map.mp member
        obtain ⟨g, first, earlier⟩ := second h listed
        exact ⟨g, first, earlier.trans (joinTouch_ebbs shown (calm.orders h listed)).2⟩

theorem onPrint_ebbs {px qty : Int} {sell : Bool} (fits : qty ≤ i64Max) (calm : CalmBook b) :
    CalmBook (b.onPrint sym px qty sell tNs) ∧ Ebbed b (b.onPrint sym px qty sell tNs) := by
  obtain ⟨calm, first⟩ := advanceVenue_ebbs sym tNs calm
  unfold onPrint
  dsimp only
  generalize b.advanceVenue sym tNs = c at calm first ⊢
  cases c.symTouch sym with
  | none => exact ⟨calm, first⟩
  | some s =>
    dsimp only
    obtain ⟨calm, second⟩ := advance_ebbs sym tNs calm
    generalize c.advance sym tNs = d at calm second ⊢
    split
    · exact ⟨calm, first.trans second⟩
    rename_i real
    push Not at real
    have sized : Sized qty := ⟨real.2.le, fits⟩
    have printed := visit_each (f := takes sym px (if sell then Side.bid else Side.ask) tNs)
      (S := fun s => Sized s.1) (R := Held.Ebbs) (s := (qty, d.out)) (fun _ _ _ _ calm left => takes_ebbs calm left)
      calm.orders sized
    refine ⟨⟨fun k member => (printed k member).1, calm.touches⟩, fun l member => ?_⟩
    obtain ⟨_, k, left, later⟩ := printed l member
    obtain ⟨h, listed, earlier⟩ := (first.trans second) k left
    exact ⟨h, listed, earlier.trans later⟩

end Book

end TradingEngine.Queue
