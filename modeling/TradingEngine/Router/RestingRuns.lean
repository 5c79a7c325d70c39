import TradingEngine.Router.RestingAccounts

/-!
# Resting accounts over whole histories

Every call on the ledger keeps the accounts of the resting table. The missed submits of a slot are counted beside the
run.
-/

namespace TradingEngine.Router

open Base CoreTypes Finset Resting

namespace Resting

variable {t : Resting} {missed : Nat → Nat}

def missSubmit (t : Resting) (slot : Nat) (missed : Nat → Nat) : Nat → Nat :=
  if slot < execSlots ∧ t.firstFree = none then Function.update missed slot (missed slot + 1) else missed

section

variable (h : Accounted t missed)

include h

theorem Accounted.recount (full ambiguous unmatched : Nat) :
    Accounted { t with full := full, ambiguous := ambiguous, unmatched := unmatched } missed :=
  ⟨h.bound, h.above, h.top, h.slots, h.word, h.count, h.covered, h.exact⟩

variable (clientOid slot : Nat)

theorem consume_accounted (qty : Int) : Accounted (t.consumeResting clientOid slot qty) missed := by
  unfold consumeResting
  cases found : t.locate clientOid slot with
  | none =>
    rw [find_none found]
    exact h.recount t.full t.ambiguous _
  | many =>
    rw [find_many found]
    exact h.recount t.full _ t.unmatched
  | one i =>
    rw [find_one found]
    obtain ⟨live, _, _⟩ := locate_one found
    dsimp only
    split
    · exact release_accounted h live
    · exact rewrite_accounted h live live rfl

theorem cancel_accounted : Accounted (t.onCancel clientOid slot) missed := by
  unfold onCancel
  cases found : t.locate clientOid slot with
  | none =>
    rw [find_none found]
    exact h
  | many =>
    rw [find_many found]
    exact h.recount t.full _ t.unmatched
  | one i =>
    rw [find_one found]
    exact release_accounted h (locate_one found).1

theorem retired_accounted : Accounted (t.onRetired clientOid slot) missed := by
  unfold onRetired
  cases found : t.locate clientOid slot with
  | none =>
    rw [find_none found]
    dsimp only
    split
    · exact h
    split
    · exact h
    rename_i i asked
    obtain ⟨_, hit, _⟩ := firstBelow_some asked
    simp only [decide_eq_true_eq] at hit
    exact rewrite_accounted h hit.2.1 hit.2.1 rfl
  | many =>
    rw [find_many found]
    exact h.recount t.full _ t.unmatched
  | one i =>
    rw [find_one found]
    exact release_accounted h (locate_one found).1

theorem submit_accounted (sym : SymbolId) (qty : Int) (buy : Bool) (px : Int) :
    Accounted (t.onSubmit clientOid slot sym qty buy px) (t.missSubmit slot missed) := by
  unfold onSubmit missSubmit
  by_cases known : slot < execSlots
  · rw [if_neg (by omega)]
    cases free : t.firstFree with
    | none =>
      rw [if_pos ⟨known, rfl⟩]
      exact submit_full_accounted h slot _ (mul1e6_nonneg qty px)
    | some i =>
      rw [if_neg (by simp)]
      obtain ⟨lt, dead, _⟩ := firstBelow_some free
      exact submit_free_accounted h lt (by simpa using dead) rfl known
  · rw [if_pos (by omega), if_neg (by simp [known])]
    exact h

theorem modify_accounted (prev clientOid slot : Nat) (sym : SymbolId) (qty : Int) (buy : Bool) (px : Int) :
    Accounted (t.onModify prev clientOid slot sym qty buy px)
      (if t.locate prev slot = .none then t.missSubmit slot missed else missed) := by
  unfold onModify
  cases found : t.locate prev slot with
  | none =>
    rw [find_none found, if_pos rfl]
    exact submit_accounted h clientOid slot sym qty buy px
  | many =>
    rw [find_many found, if_neg (by simp)]
    exact h.recount t.full _ t.unmatched
  | one i =>
    rw [find_one found, if_neg (by simp)]
    obtain ⟨live, _, _⟩ := locate_one found
    exact rewrite_accounted h live live rfl

theorem modifyAsked_accounted (prev clientOid slot : Nat) (qty px : Int) :
    Accounted (t.onModifyAsked prev clientOid slot qty px) missed := by
  unfold onModifyAsked
  cases found : t.locate prev slot with
  | none => exact h
  | many => exact h
  | one i =>
    obtain ⟨live, _, _⟩ := locate_one found
    exact rewrite_accounted h live live rfl

theorem Accounted.hi_eq_liveEnd : t.hi = t.liveEnd := by
  apply Nat.le_antisymm
  · rcases h.top with zero | live
    · omega
    have lt := h.live_bound live
    have below := h.live_lt live
    have le := le_sup (s := {i ∈ range ledgerResting | (t.rows i).live}) (f := (· + 1))
      (mem_filter.mpr ⟨mem_range.mpr lt, live⟩)
    rw [liveEnd]
    omega
  · refine Finset.sup_le fun i member => ?_
    exact h.live_lt (mem_filter.mp member).2

theorem Accounted.locate_full : t.locate clientOid slot = t.locateBelow ledgerResting clientOid slot := by
  have skip : ∀ i acc, t.hi ≤ i → i < ledgerResting → t.locateRow clientOid slot i acc = acc := by
    intro i acc ge _
    exact if_neg (by simp [h.above i ge])
  unfold locate locateBelow
  rw [loop_skip h.bound skip]

theorem Accounted.workingOn_full (slot : Nat) (sym : SymbolId) (buy : Bool) (exclude : Option Nat) :
    t.workingOn slot sym buy exclude = t.workingOnBelow ledgerResting slot sym buy exclude := by
  have skip : ∀ i acc, t.hi ≤ i → i < ledgerResting → t.workRow slot sym buy exclude i acc = acc := by
    intro i acc ge _
    exact if_neg (by simp [h.above i ge])
  unfold workingOn workingOnBelow
  rw [loop_skip h.bound skip]

end

end Resting

namespace Ledger

variable (l : Ledger) (a : Audit) (anchor : WallAnchor) (venue family outcome : Nat) (ops : List Op)

theorem bookFill_resting (fill : Fill) :
    (l.bookFill fill).resting = l.resting ∨
      (l.bookFill fill).resting = l.resting.consumeResting fill.orderId fill.strategyId fill.qty := by
  rcases l.bookFill_cases fill with ⟨_, same⟩ | ⟨_, _, _, same⟩ | ⟨_, _, i, _, booked⟩ | ⟨_, _, _, booked⟩
  · exact .inl (by rw [same])
  · exact .inl (by rw [same])
  · rw [booked, bookInstrumentFill]
    cases fill.settlement with
    | true => exact .inl rfl
    | false =>
      cases fill.adopted with
      | true => exact .inl rfl
      | false => exact .inr rfl
  · rw [booked, bookFamilyFill]
    cases fill.adopted with
    | true => exact .inl rfl
    | false => exact .inr rfl

theorem bind_resting (yes : SymbolId) :
    (l.bind venue family outcome yes).resting = l.resting ∨
      ∃ i, l.rows.familyRow venue family = some i ∧
        (l.bind venue family outcome yes).resting = l.resting.dropRestingOn (l.rows i).symYes (l.rows i).symNo := by
  rcases l.bind_cases venue family outcome yes with
    ⟨_, refused⟩ | ⟨_, ⟨_, _, _, _, same⟩ | ⟨i, found, _, taken⟩ | ⟨_, _, _, _, fresh⟩⟩
  · exact .inl (by rw [refused]; rfl)
  · exact .inl (by rw [same])
  · exact .inr ⟨i, found, by rw [taken]; rfl⟩
  · exact .inl (by rw [fresh])

theorem settle_resting :
    (l.settle venue family outcome).resting = l.resting ∨
      ∃ i, l.rows.outcomeRow venue outcome = some i ∧
        (l.settle venue family outcome).resting = l.resting.dropRestingOn (l.rows i).symYes (l.rows i).symNo := by
  rcases l.settle_cases venue family outcome with ⟨_, unmatched⟩ | ⟨_, i, found, ⟨_, same⟩ | ⟨_, _, settled⟩⟩
  · exact .inl (by rw [unmatched]; rfl)
  · exact .inl (by rw [same])
  · exact .inr ⟨i, found, by rw [settled]⟩

theorem seedPerp_resting (sym : SymbolId) (pos avgPx dayOpen : Int) :
    (l.seedPerp sym pos avgPx dayOpen).1.resting = l.resting := by
  rcases l.seedPerp_cases sym pos avgPx dayOpen with same | ⟨i, _, _, _, _, seeded⟩
  · rw [same]
  · rw [seeded]
    rfl

/-- The missed submits of every slot after one more call: a modify whose order is unknown is a submit. -/
def missedAfter (t : Resting) (missed : Nat → Nat) : Op → Nat → Nat
  | .onSubmit _ slot _ _ _ _ => t.missSubmit slot missed
  | .onModify prev _ slot _ _ _ _ => if t.locate prev slot = .none then t.missSubmit slot missed else missed
  | .clearRestingSlot slot => Function.update missed slot 0
  | _ => missed

/-- A ledger with the submits each slot has missed since it was last cleared. -/
structure Audit where
  ledger : Ledger
  missed : Nat → Nat

def Audit.step (a : Audit) (op : Op) : Audit := ⟨a.ledger.step op, missedAfter a.ledger.resting a.missed op⟩

/-- The submits of each slot that found the table full since the slot was last cleared. -/
def missedSince (anchor : WallAnchor) (ops : List Op) : Nat → Nat :=
  (run Audit.step ⟨new anchor, fun _ => 0⟩ ops).missed

theorem audit_ledger : (run Audit.step a ops).ledger = run step a.ledger ops := by
  induction ops generalizing a with
  | nil => rfl
  | cons op rest ih => exact ih (a.step op)

theorem step_accounted {l : Ledger} {missed : Nat → Nat} (h : l.resting.Accounted missed) (op : Op) :
    (l.step op).resting.Accounted (missedAfter l.resting missed op) := by
  cases op with
  | onSubmit oid slot sym qty buy px => exact submit_accounted h oid slot sym qty buy px
  | onCancel oid slot => exact cancel_accounted h oid slot
  | onRetired oid slot => exact retired_accounted h oid slot
  | onModify prev oid slot sym qty buy px => exact modify_accounted h prev oid slot sym qty buy px
  | onModifyAsked prev oid slot qty px => exact modifyAsked_accounted h prev oid slot qty px
  | clearRestingSlot slot => exact clear_accounted h slot
  | bookFill fill =>
    change (l.bookFill fill).resting.Accounted missed
    rcases l.bookFill_resting fill with same | consumed
    · exact same ▸ h
    · exact consumed ▸ consume_accounted h _ _ _
  | bind venue family outcome yes =>
    change (l.bind venue family outcome yes).resting.Accounted missed
    rcases l.bind_resting venue family outcome yes with same | ⟨i, _, dropped⟩
    · exact same ▸ h
    · exact dropped ▸ drop_accounted h _ _
  | settle venue family outcome =>
    change (l.settle venue family outcome).resting.Accounted missed
    rcases l.settle_resting venue family outcome with same | ⟨i, _, dropped⟩
    · exact same ▸ h
    · exact dropped ▸ drop_accounted h _ _
  | seedPerp sym pos avgPx dayOpen =>
    change (l.seedPerp sym pos avgPx dayOpen).1.resting.Accounted missed
    exact (l.seedPerp_resting sym pos avgPx dayOpen) ▸ h
  | observeMonoClock monoNs =>
    change (l.observeMonoClock monoNs).resting.Accounted missed
    unfold observeMonoClock
    split <;> exact h
  | markSlotSeeded slot =>
    change (l.markSlotSeeded slot).resting.Accounted missed
    unfold markSlotSeeded
    split <;> exact h
  | _ => exact h

theorem run_accounted : (run step (new anchor) ops).resting.Accounted (missedSince anchor ops) := by
  have kept : (run Audit.step ⟨new anchor, fun _ => 0⟩ ops).ledger.resting.Accounted
      (run Audit.step ⟨new anchor, fun _ => 0⟩ ops).missed :=
    run_invariant (P := fun a : Audit => a.ledger.resting.Accounted a.missed) new_accounted
      (fun a op h => step_accounted h op) ops
  rwa [audit_ledger] at kept

theorem reachable_accounted {l : Ledger} (reach : l.Reachable) : ∃ missed, l.resting.Accounted missed := by
  obtain ⟨anchor, ops, rfl⟩ := reach
  exact ⟨_, run_accounted anchor ops⟩

/-- After every history of calls: the mark is one past the highest live row and every scan bounded by
it answers as a scan of the whole table; the counter is the live rows and the missed submits, as long
as those leave the 32-bit counter room for a full table; and the dollars are the sum of the live
terms, or no less once a submit was missed. -/
theorem resting_table_accounts (anchor : WallAnchor) (ops : List Op) :
    let t := (run step (new anchor) ops).resting
    let missed := missedSince anchor ops
    (t.hi = t.liveEnd ∧
      (∀ clientOid slot, t.locate clientOid slot = t.locateBelow ledgerResting clientOid slot) ∧
      ∀ slot sym buy exclude, t.workingOn slot sym buy exclude =
        t.workingOnBelow ledgerResting slot sym buy exclude) ∧
    (∀ s < execSlots, missed s + ledgerResting ≤ u32Max → t.bySlot s = t.slotCount s + missed s) ∧
    ∀ s < execSlots, t.slotTerms s ≤ t.usd1e6 s ∧ (missed s = 0 → t.usd1e6 s = t.slotTerms s) := by
  have h := run_accounted anchor ops
  exact ⟨⟨h.hi_eq_liveEnd, h.locate_full, h.workingOn_full⟩, h.count,
    fun s known => ⟨(h.covered s known).1, h.exact s known⟩⟩

theorem submit_tally {slot : Nat} (known : slot < execSlots) (oid : Nat) (sym : SymbolId)
    (qty : Int) (buy : Bool) (px : Int) :
    let a' := a.step (.onSubmit oid slot sym qty buy px)
    a'.ledger.resting.slotCount slot + a'.missed slot = a.ledger.resting.slotCount slot + a.missed slot + 1 := by
  simp only [Audit.step, step, missedAfter, missSubmit, onSubmit]
  rw [if_neg (Nat.not_le.mpr known)]
  cases free : a.ledger.resting.firstFree with
  | none =>
    rw [if_pos ⟨known, rfl⟩, Function.update_self, ← Nat.add_assoc]
    rfl
  | some i =>
    obtain ⟨lt, dead, _⟩ := firstBelow_some free
    let r : RestingRow := ⟨oid, qty, sym, slot, true, restingSide buy, px, 0, 0, 0⟩
    have row := a.ledger.resting.slotCount_setRow lt r slot
    rw [RestingRow.countOf_dead (by simpa using dead), show r.countOf slot = 1 from r.countOf_self rfl] at row
    rw [if_neg (by simp)]
    change (a.ledger.resting.setRow i r).slotCount slot + _ = _
    omega

theorem submits_tally {slot : Nat} (known : slot < execSlots) (oid : Nat) (sym : SymbolId)
    (qty : Int) (buy : Bool) (px : Int) (n : Nat) :
    let a' := run Audit.step a (List.replicate n (.onSubmit oid slot sym qty buy px))
    a'.ledger.resting.slotCount slot + a'.missed slot = a.ledger.resting.slotCount slot + a.missed slot + n := by
  induction n generalizing a with
  | zero => simp only [List.replicate_zero, run, Nat.add_zero]
  | succ n ih =>
    have first := submit_tally a known oid sym qty buy px
    have rest := ih (a.step (.onSubmit oid slot sym qty buy px))
    rw [List.replicate_succ, run]
    dsimp only at first rest ⊢
    omega

theorem fresh_submits_tally {slot : Nat} (known : slot < execSlots) (oid : Nat)
    (sym : SymbolId) (qty : Int) (buy : Bool) (px : Int) (n : Nat) :
    let ops := List.replicate n (.onSubmit oid slot sym qty buy px)
    (run step (new anchor) ops).resting.slotCount slot + missedSince anchor ops slot = n := by
  have tally := submits_tally ⟨new anchor, fun _ => 0⟩ known oid sym qty buy px n
  have none := new_accounted.count slot known (show 0 + ledgerResting ≤ u32Max by decide)
  rw [show Resting.new.bySlot slot = 0 from rfl] at none
  dsimp only at tally ⊢
  rw [audit_ledger, show (new anchor).resting = Resting.new from rfl] at tally
  rw [missedSince, tally, ← none, Nat.zero_add]

theorem submits_outrun_counter {slot : Nat} (known : slot < execSlots) (oid : Nat)
    (sym : SymbolId) (qty : Int) (buy : Bool) (px : Int) {n : Nat} (many : u32Max < n) :
    let ops := List.replicate n (.onSubmit oid slot sym qty buy px)
    (run step (new anchor) ops).resting.bySlot slot <
      (run step (new anchor) ops).resting.slotCount slot + missedSince anchor ops slot := by
  intro ops
  have tally := fresh_submits_tally anchor known oid sym qty buy px n
  have word := (run_accounted anchor ops).word slot
  dsimp only at tally
  rw [tally]
  omega

/-- One order submitted 1024 + 2^32 times leaves the 32-bit counter short of the live rows and the
missed submits. -/
theorem full_counter_falls_short :
    let ops := List.replicate 4294968320 (Op.onSubmit 1 0 0 1000000 true 1000000)
    (run step (new ⟨0, 0⟩) ops).resting.bySlot 0 ≠
      (run step (new ⟨0, 0⟩) ops).resting.slotCount 0 + missedSince ⟨0, 0⟩ ops 0 :=
  Nat.ne_of_lt (submits_outrun_counter ⟨0, 0⟩ (by decide) 1 0 1000000 true 1000000 (by decide))

end Ledger

end TradingEngine.Router
