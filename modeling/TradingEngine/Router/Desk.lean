import TradingEngine.Router.RestingRuns
import TradingEngine.Router.Rolls
import TradingEngine.Router.Routed

/-!
# A desk of family orders

One slot that trades family legs only: the orders its gate let through, and the venue's fills of them.
-/

namespace TradingEngine.Router

open Base CoreTypes Finset Function Resting

variable {k : Nat} {t : Resting} {router : RoutedDispatcher}

theorem Ledger.observeMonoClock_books (l : Ledger) (monoNs : Nat) :
    (l.observeMonoClock monoNs).rows = l.rows ∧ (l.observeMonoClock monoNs).resting = l.resting ∧
      (l.observeMonoClock monoNs).inst = l.inst := by
  unfold Ledger.observeMonoClock
  split <;> exact ⟨rfl, rfl, rfl⟩

theorem Ledger.judgeFamily_ok {l : Ledger} {order : Order} {caps : SlotCaps}
    (passed : (l.judgeFamily order .place caps).2 = none) :
    (l.judgeFamily order .place caps).1 = l.observeMonoClock order.tsNs ∧
    (order.buy = true → l.slotResting order.strategyId < caps.maxOpenOrders) ∧
    (l.projectedExposure1e6 order.strategyId order.sym order.qty order.buy ≤ caps.capInstanceUsd1e6 ∨
      l.projectedExposure1e6 order.strategyId order.sym order.qty order.buy ≤
        l.slotExposure1e6 order.strategyId) := by
  obtain ⟨rows, _, inst⟩ := l.observeMonoClock_books order.tsNs
  unfold judgeFamily at passed ⊢
  dsimp only at passed ⊢
  split at passed
  · simp at passed
  split at passed
  · simp at passed
  rename_i small open'
  rw [if_neg small, if_neg open']
  split at passed
  · simp at passed
  rename_i within
  rw [if_neg within]
  simp only [projectedExposure1e6, slotExposure1e6, rows, inst] at within ⊢
  split at passed
  · simp at passed
  rename_i day
  rw [if_neg day]
  refine ⟨rfl, fun buy => ?_, by omega⟩
  by_contra full
  exact open' ⟨rfl, by omega, .inl buy⟩

theorem Ledger.judge_ledger (l : Ledger) (order : Order) (venue : Nat) (verb : RiskVerb) (caps : SlotCaps)
    (perp : PerpLimits) :
    (l.judge order venue verb caps perp).1 = l ∨
      (l.judge order venue verb caps perp).1 = l.observeMonoClock order.tsNs := by
  have family : (l.judgeFamily order verb caps).1 = l ∨
      (l.judgeFamily order verb caps).1 = l.observeMonoClock order.tsNs := by
    unfold judgeFamily
    dsimp only
    repeat' split
    all_goals simp
  have perps : (l.judgePerp order verb caps).1 = l ∨
      (l.judgePerp order verb caps).1 = l.observeMonoClock order.tsNs := by
    unfold judgePerp
    dsimp only
    repeat' split
    all_goals simp
  have instrument : ∀ p, (l.judgeInstrument order verb caps perp p).1 = l ∨
      (l.judgeInstrument order verb caps perp p).1 = l.observeMonoClock order.tsNs := by
    intro p
    unfold judgeInstrument
    dsimp only
    repeat' split
    all_goals simp
  unfold judge
  split
  · exact perps
  split
  · exact instrument _
  · split
    · exact .inl rfl
    · exact family

namespace RoutedDispatcher

variable {d : RoutedDispatcher} {order : Order} {venue : Nat}

theorem riskCheck_books (d : RoutedDispatcher) (order : Order) (venue : Nat) (verb : RiskVerb) :
    (d.riskCheck order venue verb).1.route = d.route ∧ (d.riskCheck order venue verb).1.ledger.rows = d.ledger.rows ∧
    (d.riskCheck order venue verb).1.ledger.resting = d.ledger.resting ∧
    (d.riskCheck order venue verb).1.ledger.inst = d.ledger.inst := by
  obtain ⟨rows, resting, inst⟩ := d.ledger.observeMonoClock_books order.tsNs
  have ledger : (d.verdict order venue verb).1 = d.ledger ∨
      (d.verdict order venue verb).1 = d.ledger.observeMonoClock order.tsNs := by
    unfold verdict
    dsimp only
    split
    · exact .inl rfl
    repeat' split
    · exact .inl rfl
    · exact .inl rfl
    · exact .inl rfl
    · exact d.ledger.judge_ledger order venue verb _ _
  have judged : (d.riskCheck order venue verb).1.ledger = (d.verdict order venue verb).1 ∧
      (d.riskCheck order venue verb).1.route = d.route := by
    unfold riskCheck
    split <;> rename_i same <;> rw [same] <;> exact ⟨rfl, rfl⟩
  rw [judged.1, judged.2]
  rcases ledger with same | observed
  · rw [same]
    exact ⟨rfl, rfl, rfl, rfl⟩
  · rw [observed]
    exact ⟨rfl, rows, resting, inst⟩

theorem riskCheck_family (bare : d.ledger.inst.n = 0) (passed : (d.riskCheck order venue .place).2 = .ok ()) :
    order.strategyId < execSlots ∧
    (d.riskCheck order venue .place).1 = { d with ledger := d.ledger.observeMonoClock order.tsNs } ∧
    (order.buy = true → d.ledger.slotResting order.strategyId < (d.route.caps order.strategyId).maxOpenOrders) ∧
    (d.ledger.projectedExposure1e6 order.strategyId order.sym order.qty order.buy ≤
        (d.route.caps order.strategyId).capInstanceUsd1e6 ∨
      d.ledger.projectedExposure1e6 order.strategyId order.sym order.qty order.buy ≤
        d.ledger.slotExposure1e6 order.strategyId) := by
  have missing : ∀ sym, d.ledger.inst.instFind sym = none := fun sym => by simp [Instruments.instFind, bare]
  have plain : d.ledger.inst.isPerp order.sym = false := by simp [Instruments.isPerp, Instruments.perpFind, missing]
  have family : ∀ caps perp, (d.ledger.judge order venue .place caps perp).2 = none →
      d.ledger.judge order venue .place caps perp = d.ledger.judgeFamily order .place caps := by
    intro caps perp ok
    unfold Ledger.judge Ledger.probe at ok ⊢
    simp only [plain, missing, Bool.false_eq_true, if_false] at ok ⊢
    split at ok
    · simp at ok
    · rename_i priced
      rw [if_neg priced]
  have judged : (d.verdict order venue .place).2 = none := by
    unfold riskCheck at passed
    split at passed
    · rename_i same
      rw [same]
    · simp at passed
  unfold riskCheck
  unfold verdict ExecRoute.capsAt at judged ⊢
  dsimp only at judged ⊢
  by_cases known : order.strategyId < execSlots
  · simp only [Nat.not_le.mpr known, if_false] at judged ⊢
    split at judged
    · simp at judged
    split at judged
    · simp at judged
    split at judged
    · simp at judged
    rename_i running free seeded
    rw [if_neg running, if_neg free, if_neg seeded]
    have same := family _ _ judged
    rw [same] at judged ⊢
    obtain ⟨ledger, room, within⟩ := Ledger.judgeFamily_ok judged
    refine ⟨known, ?_, room, within⟩
    rw [← ledger]
    split
    · rename_i taken
      rw [taken]
    · rename_i refused
      rw [refused] at judged
      simp at judged
  · simp [Nat.not_lt.mp known] at judged

end RoutedDispatcher

/-- An order the gate let through, and what of it may still fill. -/
structure Accepted where
  order : Order
  rem : Int

namespace Accepted

def Fills (a : Accepted) (fill : Fill) : Prop :=
  fill.origin = .venue ∧ fill.strategyId = a.order.strategyId ∧ fill.sym = a.order.sym ∧
    fill.side = a.order.side ∧ fill.orderId = a.order.clientOid ∧ 0 ≤ fill.qty ∧ fill.qty ≤ a.rem ∧
    (if a.order.buy then fill.px ≤ a.order.px else a.order.px ≤ fill.px)

instance (a : Accepted) (fill : Fill) : Decidable (a.Fills fill) := inferInstanceAs (Decidable (_ ∧ _))

end Accepted

/-- The dispatcher, with the orders of one slot in the order its gate let them through. -/
structure Desk where
  router : RoutedDispatcher
  orders : Nat → Accepted
  n : Nat

inductive DeskOp where
  | submit (order : Order) (venue : Nat)
  | fill (k : Nat) (fill : Fill)

namespace Desk

def start (router : RoutedDispatcher) : Desk := ⟨router, fun _ => ⟨⟨0, 0, .bid, false, 0, 0, 0, 0, 0⟩, 0⟩, 0⟩

def accept (s : Desk) (router : RoutedDispatcher) (order : Order) : Desk where
  router := { router with
    ledger := router.ledger.step (.onSubmit order.clientOid order.strategyId order.sym order.qty order.buy order.px) }
  orders := update s.orders s.n ⟨order, order.qty⟩
  n := s.n + 1

def book (s : Desk) (k : Nat) (fill : Fill) : Desk where
  router := { s.router with ledger := s.router.ledger.step (.bookFill fill) }
  orders := update s.orders k { s.orders k with rem := (s.orders k).rem - fill.qty }
  n := s.n

def step (slot : Nat) (s : Desk) : DeskOp → Desk
  | .submit order venue =>
    if order.strategyId ≠ slot then s
    else
      match s.router.riskCheck order venue .place with
      | (router, .ok ()) => s.accept router order
      | (router, .error _) => { s with router := router }
  | .fill k fill => if k < s.n ∧ (s.orders k).Fills fill then s.book k fill else s

def working (s : Desk) : Finset Nat := {k ∈ range s.n | 0 < (s.orders k).rem}

theorem mem_working {s : Desk} : k ∈ s.working ↔ k < s.n ∧ 0 < (s.orders k).rem := by
  simp [working]

/-- The order has a row of the table that covers what is left of it. -/
def Seated (t : Resting) (slot : Nat) (a : Accepted) : Prop :=
  ∃ i, (t.rows i).live = true ∧ (t.rows i).slot = slot ∧ (t.rows i).clientOid = a.order.clientOid ∧
    a.rem ≤ (t.rows i).remaining1e6

open Classical in
/-- Every working order has a row or was missed by a full table. -/
structure Counted (slot : Nat) (s : Desk) : Prop where
  own : ∀ i, (s.router.ledger.resting.rows i).live = true → (s.router.ledger.resting.rows i).slot = slot
  fits : ∀ k < s.n, (s.orders k).rem ≤ i64Max
  ids : ∀ j ∈ s.working, ∀ k ∈ s.working, (s.orders j).order.clientOid = (s.orders k).order.clientOid → j = k
  accounts : ∃ missed, s.router.ledger.resting.Accounted missed ∧ missed slot + ledgerResting ≤ u32Max ∧
    #{k ∈ s.working | ¬ Seated s.router.ledger.resting slot (s.orders k)} ≤ missed slot

variable {slot : Nat} {s : Desk}

theorem Counted.working_le (h : Counted slot s) (known : slot < execSlots) :
    #s.working ≤ s.router.ledger.resting.bySlot slot := by
  classical
  obtain ⟨missed, accounted, room, unseated⟩ := h.accounts
  rw [accounted.count slot known room]
  have seated : #{k ∈ s.working | Seated s.router.ledger.resting slot (s.orders k)} ≤
      s.router.ledger.resting.slotCount slot := by
    refine card_le_card_of_forall_subsingleton
      (fun k i => (s.router.ledger.resting.rows i).clientOid = (s.orders k).order.clientOid)
      (fun k member => ?_) fun i _ j first k second => ?_
    · obtain ⟨i, live, owner, oid, _⟩ := (mem_filter.mp member).2
      refine ⟨i, mem_filter.mpr ⟨mem_range.mpr (accounted.live_bound live), ?_⟩, oid⟩
      simp [RestingRow.worksFor, live, owner]
    · exact h.ids j (mem_filter.mp first.1).1 k (mem_filter.mp second.1).1 (first.2.symm.trans second.2)
  have split := card_filter_add_card_filter_not (s := s.working)
    fun k => Seated s.router.ledger.resting slot (s.orders k)
  omega

theorem slotCount_full (own : ∀ i, (t.rows i).live = true → (t.rows i).slot = slot)
    (full : t.firstFree = none) : t.slotCount slot = ledgerResting := by
  have all : {i ∈ range ledgerResting | (t.rows i).worksFor slot} = range ledgerResting := by
    refine filter_true_of_mem fun i member => ?_
    have live : (t.rows i).live = true := by simpa using firstBelow_none full i (mem_range.mp member)
    simp [RestingRow.worksFor, live, own i live]
  rw [slotCount, all, card_range]

theorem submit_seats {missed : Nat → Nat} (accounted : t.Accounted missed)
    (own : ∀ i, (t.rows i).live = true → (t.rows i).slot = slot) (known : slot < execSlots)
    (words : missed slot + ledgerResting ≤ u32Max) (room : t.bySlot slot < u32Max) (order : Order) :
    let t' := t.onSubmit order.clientOid slot order.sym order.qty order.buy order.px
    (∀ i, (t'.rows i).live = true → (t'.rows i).slot = slot) ∧ (∀ a, Seated t slot a → Seated t' slot a) ∧
    ∃ missed', t'.Accounted missed' ∧ missed' slot + ledgerResting ≤ u32Max ∧
      (missed' slot = missed slot + 1 ∨ (missed' slot = missed slot ∧ Seated t' slot ⟨order, order.qty⟩)) := by
  intro t'
  have kept := submit_accounted accounted order.clientOid slot order.sym order.qty order.buy order.px
  cases free : t.firstFree with
  | none =>
    have rows : t'.rows = t.rows := by simp only [t', onSubmit, Nat.not_le.mpr known, if_false, free]
    have count := accounted.count slot known words
    rw [slotCount_full own free] at count
    unfold missSubmit at kept
    rw [if_pos ⟨known, free⟩] at kept
    refine ⟨by rw [rows]; exact own, fun a seated => ?_, _, kept, ?_, .inl (update_self ..)⟩
    · unfold Seated at *
      rwa [rows]
    · rw [update_self]
      omega
  | some i =>
    obtain ⟨_, dead, _⟩ := firstBelow_some free
    have dead : (t.rows i).live = false := by simpa using dead
    have rows : t'.rows = update t.rows i
        ⟨order.clientOid, order.qty, order.sym, slot, true, restingSide order.buy, order.px, 0, 0, 0⟩ := by
      simp only [t', onSubmit, Nat.not_le.mpr known, if_false, free]
      rfl
    unfold missSubmit at kept
    rw [if_neg (by simp [free])] at kept
    refine ⟨fun j live => ?_, fun a seated => ?_, missed, kept, words, .inr ⟨rfl, i, ?_⟩⟩
    · rw [rows] at live ⊢
      rcases eq_or_ne j i with rfl | other
      · rw [update_self]
      · rw [update_of_ne other] at live ⊢
        exact own j live
    · obtain ⟨j, live, seat⟩ := seated
      have other : j ≠ i := by
        rintro rfl
        simp [dead] at live
      refine ⟨j, ?_⟩
      rw [rows, update_of_ne other]
      exact ⟨live, seat⟩
    · rw [rows, update_self]
      exact ⟨rfl, rfl, rfl, Int.le_refl _⟩

theorem consume_rows (t : Resting) (clientOid slot : Nat) (qty : Int) :
    (t.consumeResting clientOid slot qty).rows = t.rows ∨
      ∃ i, t.Names clientOid slot i ∧ ((satSub (t.rows i).remaining1e6 qty ≤ 0 ∧
            (t.consumeResting clientOid slot qty).rows = update t.rows i .free) ∨
          (t.consumeResting clientOid slot qty).rows =
            update t.rows i { t.rows i with remaining1e6 := satSub (t.rows i).remaining1e6 qty }) := by
  unfold consumeResting
  cases found : t.locate clientOid slot with
  | none =>
    rw [find_none found]
    exact .inl rfl
  | many =>
    rw [find_many found]
    exact .inl rfl
  | one i =>
    rw [find_one found]
    refine .inr ⟨i, locate_one found, ?_⟩
    dsimp only
    split
    · rename_i spent
      exact .inl ⟨spent, t.release_rows i⟩
    · exact .inr rfl

theorem consume_seats (own : ∀ i, (t.rows i).live = true → (t.rows i).slot = slot) (clientOid : Nat) (qty : Int) :
    let t' := t.consumeResting clientOid slot qty
    (∀ i, (t'.rows i).live = true → (t'.rows i).slot = slot) ∧
    ∀ a : Accepted, ∀ left, Seated t slot a → 0 < left → left ≤ i64Max → left ≤ a.rem →
      (a.order.clientOid = clientOid → left ≤ a.rem - qty) → Seated t' slot { a with rem := left } := by
  intro t'
  rcases consume_rows t clientOid slot qty with rows | ⟨i, ⟨live, oid, owner⟩, taken⟩
  · refine ⟨by rw [rows]; exact own, fun a left ⟨j, live, owner, oid, covers⟩ _ _ le _ => ⟨j, ?_⟩⟩
    rw [rows]
    exact ⟨live, owner, oid, le.trans covers⟩
  refine ⟨fun j live' => ?_, fun a left ⟨j, live', owner', oid', covers⟩ some fits le filled => ⟨j, ?_⟩⟩
  · rcases taken with ⟨_, rows⟩ | rows <;> rw [rows] at live' ⊢ <;> rcases eq_or_ne j i with rfl | other
    · simp [RestingRow.free] at live'
    · rw [update_of_ne other] at live' ⊢
      exact own j live'
    · rw [update_self]
      exact owner
    · rw [update_of_ne other] at live' ⊢
      exact own j live'
  · rcases eq_or_ne j i with rfl | other
    · have short := filled (oid'.symm.trans oid)
      have covered : left ≤ satSub (t.rows j).remaining1e6 qty := by
        simp only [satSub, i64Clamp, i64Min, i64Max] at *
        omega
      rcases taken with ⟨spent, _⟩ | rows
      · omega
      · rw [rows, update_self]
        exact ⟨live, owner, oid', covered⟩
    · have same : t'.rows j = t.rows j := by
        rcases taken with ⟨_, rows⟩ | rows <;> rw [rows, update_of_ne other]
      rw [same]
      exact ⟨live', owner', oid', le.trans covers⟩

theorem accept_orders (s : Desk) (router : RoutedDispatcher) (order : Order) (lt : k < s.n) :
    (s.accept router order).orders k = s.orders k := update_of_ne (Nat.ne_of_lt lt) ..

theorem accept_new (s : Desk) (router : RoutedDispatcher) (order : Order) :
    (s.accept router order).orders s.n = ⟨order, order.qty⟩ := update_self ..

theorem accept_working {s : Desk} {order : Order} (member : k ∈ (s.accept router order).working) :
    k ∈ s.working ∨ k = s.n := by
  obtain ⟨lt, rem⟩ := mem_working.mp member
  have lt : k < s.n + 1 := lt
  rcases Nat.lt_succ_iff_lt_or_eq.mp lt with old | new
  · rw [accept_orders s router order old] at rem
    exact .inl (mem_working.mpr ⟨old, rem⟩)
  · exact .inr new

theorem accept_ids (h : Counted slot s) {order : Order}
    (fresh : ∀ k ∈ s.working, (s.orders k).order.clientOid ≠ order.clientOid) :
    ∀ j ∈ (s.accept router order).working, ∀ k ∈ (s.accept router order).working,
      ((s.accept router order).orders j).order.clientOid = ((s.accept router order).orders k).order.clientOid → j = k := by
  intro j first k second clash
  rcases accept_working first with old | rfl <;> rcases accept_working second with old' | rfl
  · rw [accept_orders _ _ _ (mem_working.mp old).1, accept_orders _ _ _ (mem_working.mp old').1] at clash
    exact h.ids j old k old' clash
  · rw [accept_orders _ _ _ (mem_working.mp old).1, accept_new] at clash
    exact absurd clash (fresh j old)
  · rw [accept_orders _ _ _ (mem_working.mp old').1, accept_new] at clash
    exact absurd clash.symm (fresh k old')
  · rfl

theorem accept_counted (h : Counted slot s) {order : Order} (known : slot < execSlots)
    (owned : order.strategyId = slot) (same : router.ledger.resting = s.router.ledger.resting)
    (room : s.router.ledger.resting.bySlot slot < u32Max) (fits : order.qty ≤ i64Max)
    (fresh : ∀ k ∈ s.working, (s.orders k).order.clientOid ≠ order.clientOid) :
    Counted slot (s.accept router order) := by
  classical
  obtain ⟨missed, accounted, words, unseated⟩ := h.accounts
  have after : (s.accept router order).router.ledger.resting = s.router.ledger.resting.onSubmit order.clientOid
      slot order.sym order.qty order.buy order.px := by
    rw [← same, ← owned]
    rfl
  obtain ⟨own, seats, missed', accounted', words', new⟩ := submit_seats accounted h.own known words room order
  rw [← after] at own seats accounted' new
  refine ⟨own, fun k lt => ?_, accept_ids h fresh, missed', accounted', words', ?_⟩
  · rcases Nat.lt_succ_iff_lt_or_eq.mp lt with old | rfl
    · rw [accept_orders _ _ _ old]
      exact h.fits k old
    · rw [accept_new]
      exact fits
  · have still : ∀ k ∈ s.working, ¬ Seated (s.accept router order).router.ledger.resting slot
        ((s.accept router order).orders k) → k ∈ {k ∈ s.working | ¬ Seated s.router.ledger.resting slot (s.orders k)} := by
      intro k old without
      rw [accept_orders _ _ _ (mem_working.mp old).1] at without
      exact mem_filter.mpr ⟨old, fun seated => without (seats _ seated)⟩
    rcases new with more | ⟨equal, seated⟩
    · rw [more]
      refine (card_le_card fun k member => ?_).trans ((card_insert_le s.n _).trans (Nat.add_le_add_right unseated 1))
      obtain ⟨member, without⟩ := mem_filter.mp member
      rcases accept_working member with old | rfl
      · exact mem_insert_of_mem (still k old without)
      · exact mem_insert_self _ _
    · rw [equal]
      refine (card_le_card fun k member => ?_).trans unseated
      obtain ⟨member, without⟩ := mem_filter.mp member
      rcases accept_working member with old | rfl
      · exact still k old without
      · rw [accept_new] at without
        exact absurd seated without

theorem book_own (s : Desk) (k : Nat) (fill : Fill) :
    (s.book k fill).orders k = { s.orders k with rem := (s.orders k).rem - fill.qty } := update_self ..

theorem book_other (s : Desk) {j : Nat} (other : j ≠ k) (fill : Fill) :
    (s.book k fill).orders j = s.orders j := update_of_ne other ..

theorem book_order (s : Desk) (j k : Nat) (fill : Fill) : ((s.book k fill).orders j).order = (s.orders j).order := by
  rcases eq_or_ne j k with rfl | other
  · rw [book_own]
  · rw [book_other s other]

theorem book_rem (s : Desk) (j : Nat) {fill : Fill} (nonneg : 0 ≤ fill.qty) :
    ((s.book k fill).orders j).rem ≤ (s.orders j).rem := by
  rcases eq_or_ne j k with rfl | other
  · rw [book_own]
    dsimp only
    omega
  · rw [book_other s other]

theorem book_working {fill : Fill} (nonneg : 0 ≤ fill.qty) : (s.book k fill).working ⊆ s.working := by
  intro j member
  obtain ⟨lt, rem⟩ := mem_working.mp member
  exact mem_working.mpr ⟨lt, rem.trans_le (s.book_rem j nonneg)⟩

theorem book_counted (h : Counted slot s) {fill : Fill} (lt : k < s.n)
    (owned : (s.orders k).order.strategyId = slot) (fills : (s.orders k).Fills fill) :
    Counted slot (s.book k fill) := by
  classical
  obtain ⟨missed, accounted, words, unseated⟩ := h.accounts
  obtain ⟨_, attributed, _, _, oid, nonneg, within, _⟩ := fills
  have less := s.book_working (k := k) nonneg
  have ids : ∀ i ∈ (s.book k fill).working, ∀ j ∈ (s.book k fill).working,
      ((s.book k fill).orders i).order.clientOid = ((s.book k fill).orders j).order.clientOid → i = j := by
    intro i first j second clash
    rw [book_order, book_order] at clash
    exact h.ids i (less first) j (less second) clash
  have fits : ∀ j < s.n, ((s.book k fill).orders j).rem ≤ i64Max := fun j lt =>
    (s.book_rem j nonneg).trans (h.fits j lt)
  rcases s.router.ledger.bookFill_resting fill with same | consumed
  · have same : (s.book k fill).router.ledger.resting = s.router.ledger.resting := same
    refine ⟨by rw [same]; exact h.own, fits, ids, missed, by rwa [same], words, ?_⟩
    refine (card_le_card fun j member => ?_).trans unseated
    obtain ⟨member, without⟩ := mem_filter.mp member
    refine mem_filter.mpr ⟨less member, fun ⟨i, live, owner, oid, covers⟩ => without ?_⟩
    rw [same]
    exact ⟨i, live, owner, by rw [book_order]; exact oid, (s.book_rem j nonneg).trans covers⟩
  · have consumed : (s.book k fill).router.ledger.resting =
        s.router.ledger.resting.consumeResting fill.orderId slot fill.qty := by
      rw [← owned, ← attributed]
      exact consumed
    obtain ⟨own, seats⟩ := consume_seats h.own fill.orderId fill.qty
    have kept := consume_accounted accounted fill.orderId slot fill.qty
    rw [← consumed] at own seats kept
    refine ⟨own, fits, ids, missed, kept, words, ?_⟩
    refine (card_le_card fun j member => ?_).trans unseated
    obtain ⟨member, without⟩ := mem_filter.mp member
    obtain ⟨lt', some⟩ := mem_working.mp member
    refine mem_filter.mpr ⟨less member, fun seated => without ?_⟩
    have filled : (s.orders j).order.clientOid = fill.orderId →
        ((s.book k fill).orders j).rem ≤ (s.orders j).rem - fill.qty := by
      intro clash
      rcases eq_or_ne j k with rfl | other
      · rw [book_own]
      -- the id of another working order: the filled one is done, and the fill is empty
      have done : k ∉ s.working := fun working =>
        other (h.ids j (less member) k working (clash.trans oid))
      have spent : ¬ 0 < (s.orders k).rem := fun rem => done (mem_working.mpr ⟨lt, rem⟩)
      rw [book_other s other]
      omega
    have seat := seats (s.orders j) _ seated some (fits j lt') (s.book_rem j nonneg) filled
    unfold Seated at seat ⊢
    rw [book_order]
    exact seat

end Desk

end TradingEngine.Router
