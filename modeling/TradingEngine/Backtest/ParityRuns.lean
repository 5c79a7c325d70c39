import TradingEngine.Backtest.Parity

/-!
# Paper and replay agree

One list of intents, ticks and prints, read by the paper matcher and by the fill engine.
-/

namespace TradingEngine.Backtest

open Base CoreTypes Queue Paper List FillEngine

variable {o : Order} {clientOid strategyId i : Nat} {ps : List Pending} {os : List OpenOrder} {p : Pending}
  {out : List SynthFill}

/-! ### The symbols both sides judge alike -/

section Symbols

variable {params : ModelParams} {law : Bool} {sym : SymbolId}

/-- A symbol with a book, and the same delay on both sides. -/
structure BookSym (params : ModelParams) (law : Bool) (sym : SymbolId) : Prop where
  venue : symbolVenueByte sym ≤ 4 ∨ symbolVenueByte sym = 6 ∨ symbolVenueByte sym = venueMexc
  leg : heldPmLeg sym = false
  delay : params.latencyNs (if law then symbolVenueByte sym else modelVenueByte sym) = activation (symbolVenueByte sym)

theorem modelVenueByte_cases (sym : SymbolId) : modelVenueByte sym = symbolVenueByte sym ∨
    modelVenueByte sym = 1 ∧ symbolVenueByte sym = 0 := by
  unfold modelVenueByte
  split_ifs with anchor
  · subst anchor
    exact .inr ⟨rfl, by decide⟩
  · exact .inl rfl

theorem modelVenueByte_queue (queued : symbolVenueByte sym = venueHyperliquid) : modelVenueByte sym = venueHyperliquid := by
  rcases modelVenueByte_cases sym with same | ⟨-, zero⟩
  · rw [same, queued]
  · rw [zero] at queued
    cases queued

theorem queueVenue_same (sym : SymbolId) : queueVenue (modelVenueByte sym) = queueVenue (symbolVenueByte sym) := by
  rcases modelVenueByte_cases sym with same | ⟨one, zero⟩
  · rw [same]
  · rw [one, zero]
    rfl

theorem judgedByQueue_same (sym : SymbolId) (kind : OrderKind) (postOnly : Bool) :
    judgedByQueue (modelVenueByte sym) kind postOnly = judgedByQueue (symbolVenueByte sym) kind postOnly := by
  rw [judgedByQueue, judgedByQueue, queueVenue_same]

theorem BookSym.queueDelay (book : BookSym params law sym) (queued : symbolVenueByte sym = venueHyperliquid) :
    params.latencyNs venueHyperliquid = activation venueHyperliquid := by
  have delay := book.delay
  rw [modelVenueByte_queue queued, queued, ite_self] at delay
  exact delay

theorem BookSym.tradeable (book : BookSym params law sym) :
    tradeableVenueByte (modelVenueByte sym) = !decide (symbolVenueByte sym ≥ activationNs.length ∨
      symbolVenueByte sym = venueMexc) := by
  have size : activationNs.length = 11 := rfl
  have mexc : venueMexc = 7 := rfl
  have venue := book.venue
  rw [size, mexc] at *
  unfold tradeableVenueByte
  rcases modelVenueByte_cases sym with same | ⟨one, zero⟩
  · rw [same]
    simp only [← decide_not]
    congr 1
    apply propext
    omega
  · rw [one, zero]
    decide

theorem BookSym.unroutable (book : BookSym params law sym) (own : o.sym = sym) :
    FillEngine.unroutable o = Matcher.unroutable o.toOrder := by
  subst own
  have mexc : venueMexc = 7 := rfl
  have evm : venueHyperEvm = 8 := rfl
  have venue := book.venue
  have kinds : kindOk o = Matcher.kindOk o.toOrder := by
    have notEvm : symbolVenueByte o.sym ≠ venueHyperEvm := by omega
    have notModel : modelVenueByte o.sym ≠ venueHyperEvm := by
      rcases modelVenueByte_cases o.sym with same | ⟨one, -⟩
      · rw [same]
        exact notEvm
      · rw [one]
        decide
    rw [kindOk, Matcher.kindOk, if_neg notModel, if_neg notEvm]
  unfold unroutable Matcher.unroutable
  rw [book.tradeable, kinds]
  by_cases data : symbolVenueByte o.sym ≥ activationNs.length ∨ symbolVenueByte o.sym = venueMexc
  · simp only [data, decide_true, Bool.not_true, Bool.not_false, true_or]
    rcases data with past | same
    · simp only [past, true_or, decide_true]
    · simp only [same, true_or, or_true, decide_true]
  · obtain ⟨inside, other⟩ := not_or.mp data
    simp only [inside, other, decide_false, Bool.not_false, Bool.not_true, Bool.false_eq_true, false_or]

end Symbols

/-- An engine that replays books only. -/
structure Plain (params : ModelParams) (law : Bool) (e : FillEngine) : Prop where
  params : e.params = params
  law : e.deltaBySymbolVenue = law
  classes : NoPrediction e.symClass
  marked : ∀ sym, e.markFillSyms sym = false
  settled : ∀ sym, e.settled sym = false
  options : e.optSettle1e6 = []
  binaries : e.binarySettle = []
  delay : e.queueDelay = none
  running : e.panicked = false

theorem Plain.moved {params : ModelParams} {law : Bool} {e : FillEngine} (plain : Plain params law e) (seqNext : Nat)
    (open_ : List OpenOrder) (accounts : Accounts) (queue : QueueBook) (queueOos : Nat × Nat → Option Bool)
    (lastWallNs settleDueNs binaryDueNs : Nat) :
    Plain params law { e with seqNext, open_, accounts, queue, queueOos, lastWallNs, settleDueNs, binaryDueNs } := by
  obtain ⟨params, law, classes, marked, settled, options, binaries, delay, running⟩ := plain
  exact ⟨params, law, classes, marked, settled, options, binaries, delay, running⟩

structure Together (params : ModelParams) (law : Bool) (m : Matcher) (e : FillEngine) : Prop where
  table : SameTable m.open_ e.open_
  short : m.open_.length ≤ maxOpenTotal
  queue : m.queue = e.queue
  ordered : m.queue.Ordered fun sym => symbolVenueByte sym = venueHyperliquid
  held : m.held.pending = []
  shadows : m.held.shadow = []
  plain : Plain params law e

/-! ### Intents -/

section Intents

variable {params : ModelParams} {law : Bool} {m : Matcher} {e : FillEngine}

def Resting.index : Matcher.Resting → Option Nat
  | .one i => some i
  | _ => none

theorem findFrom_same (same : SameTable ps os) (i : Nat) (found : Matcher.Resting) (few : found ≠ .many) :
    FillEngine.findFrom clientOid strategyId os i (Resting.index found) =
      Resting.index (Matcher.findFrom clientOid strategyId ps i found) := by
  induction same generalizing i found with
  | nil => rfl
  | cons alike _ ih =>
    obtain ⟨-, -, -, -, -, -, -, oid, slot⟩ := alike.fields
    cases found with
    | many => exact absurd rfl few
    | none =>
      have first := ih (i + 1) (.one i) nofun
      have later := ih (i + 1) .none nofun
      simp only [FillEngine.findFrom, Matcher.findFrom, oid, slot]
      split
      · exact first
      · exact later
    | one j =>
      have later := ih (i + 1) (.one j) nofun
      simp only [FillEngine.findFrom, Matcher.findFrom, oid, slot]
      split
      · rfl
      · exact later

theorem findResting_same (same : SameTable m.open_ e.open_) (clientOid strategyId : Nat) :
    e.findResting clientOid strategyId = Resting.index (m.findResting clientOid strategyId) :=
  findFrom_same same 0 .none nofun

theorem SameTable.entry (same : SameTable ps os) :
    (ps[i]? = none ∧ os[i]? = none) ∨ ∃ p o, ps[i]? = some p ∧ os[i]? = some o ∧ Alike p o := by
  induction same generalizing i with
  | nil => exact .inl ⟨rfl, rfl⟩
  | cons alike _ ih =>
    cases i with
    | zero => exact .inr ⟨_, _, rfl, rfl, alike⟩
    | succ i => exact ih

theorem SameTable.erase (same : SameTable ps os) (i : Nat) : SameTable (ps.eraseIdx i) (os.eraseIdx i) := by
  rw [eraseIdx_eq_take_drop_succ, eraseIdx_eq_take_drop_succ]
  exact rel_append (forall₂_take i same) (forall₂_drop (i + 1) same)

theorem SameTable.set (same : SameTable ps os) (i : Nat)
    {o : OpenOrder} (alike : Alike p o) : SameTable (ps.set i p) (os.set i o) := by
  rw [set_eq_take_append_cons_drop, set_eq_take_append_cons_drop, same.length_eq]
  split
  · exact rel_append (forall₂_take i same) (.cons alike (forall₂_drop (i + 1) same))
  · exact same

theorem queued_venue {venue : Nat} {kind : OrderKind} {postOnly : Bool} (queued : judgedByQueue venue kind postOnly = true) :
    venue = venueHyperliquid := by
  unfold judgedByQueue queueVenue at queued
  simp only [decide_eq_true_eq] at queued
  exact queued.2.2

theorem Plain.queuePlace (plain : Plain params law e) (book : BookSym params law o.sym)
    (queued : symbolVenueByte o.sym = venueHyperliquid) :
    e.queuePlaceOf o o.tsNs (modelVenueByte o.sym) = Matcher.queuePlace o.toOrder (symbolVenueByte o.sym) o.tsNs := by
  unfold queuePlaceOf Matcher.queuePlace Matcher.queueExpiry queueDelayOf
  rw [plain.delay, plain.params, modelVenueByte_queue queued, queued, Option.getD_none, book.queueDelay queued]

section

variable (together : Together params law m e)

include together

theorem Together.withQueue {q : QueueBook}
    (ordered : q.Ordered fun sym => symbolVenueByte sym = venueHyperliquid) (queueOos : Nat × Nat → Option Bool) :
    Together params law { m with queue := q } { e with queue := q, queueOos := queueOos } := by
  obtain ⟨table, short, -, -, held, shadows, plain⟩ := together
  exact ⟨table, short, rfl, ordered, held, shadows, plain.moved ..⟩

theorem Together.withTable (tape : Tape) (seqNext : Nat) (same : SameTable ps os) (short : ps.length ≤ maxOpenTotal) :
    Together params law { m with open_ := ps, tape := tape } { e with open_ := os, seqNext := seqNext } := by
  obtain ⟨-, -, queue, ordered, held, shadows, plain⟩ := together
  exact ⟨same, short, queue, ordered, held, shadows, plain.moved ..⟩

theorem accepted_alike (book : BookSym params law o.sym) (stamped : o.venue = symbolVenueByte o.sym) (seq uid : Nat) :
    Alike ⟨seq, addNs o.tsNs (activation (symbolVenueByte o.sym)), expiryAt o.tsNs o.ttlNs, o.px, o.qty, o.clientOid,
      .of o.toOrder, symbolVenueByte o.sym, uid⟩ (e.opened o o.tsNs) := by
  refine ⟨?_, stamped, rfl, rfl⟩
  have delay := book.delay
  rw [← together.plain.params, ← together.plain.law] at delay
  simp only [Quote.ofPending, Quote.ofOpen, opened, deltaVenue, OrderIdentity.of, delay]

theorem place_together (book : BookSym params law o.sym) (stamped : o.venue = symbolVenueByte o.sym) :
    Together params law (m.submit o.toOrder o.tsNs) (e.intakePlace o o.tsNs) ∧
      (m.submit o.toOrder o.tsNs).tape.out = m.tape.out := by
  have notHeld : ¬(symbolVenueByte o.sym = venueHypercall ∨ heldPmLeg o.sym = true) := by
    have hypercall : venueHypercall = 9 := rfl
    have mexc : venueMexc = 7 := rfl
    have venue := book.venue
    rw [book.leg]
    simp only [Bool.false_eq_true, or_false]
    omega
  have onGrid : e.offPredictionGrid o = false := by rw [offPredictionGrid, if_pos (.inr (together.plain.classes o.sym))]
  have count : (m.open_.filter fun p => p.ident.sym = o.sym).length = (e.open_.filter fun p => p.sym = o.sym).length := by
    refine (rel_filter (R := Alike) ?_ together.table).length_eq
    intro p q alike
    obtain ⟨-, -, here, -⟩ := alike.fields
    simp only [here]
  unfold Matcher.submit intakePlace
  rw [if_neg notHeld, book.unroutable rfl, onGrid, judgedByQueue_same, count, together.table.length_eq]
  by_cases refused : Matcher.unroutable o.toOrder = true
  · rw [if_pos refused, if_pos refused]
    exact ⟨together, rfl⟩
  rw [if_neg refused, if_neg refused, if_neg Bool.false_ne_true]
  by_cases queued : judgedByQueue (symbolVenueByte o.sym) o.kind o.postOnly = true
  · rw [if_pos queued, if_pos queued]
    have venue := queued_venue queued
    unfold Matcher.submitQueue intakeQueuePlace
    rw [together.plain.queuePlace book venue, ← together.queue]
    have ordered := QueueBook.place_ordered together.ordered
      (p := Matcher.queuePlace o.toOrder (symbolVenueByte o.sym) o.tsNs) venue
    split
    · rename_i answer
      rw [answer] at ordered ⊢
      exact ⟨together.withQueue ordered _, rfl⟩
    · rename_i answer
      rw [answer] at ordered ⊢
      exact ⟨together.withQueue ordered _, rfl⟩
  · rw [if_neg queued, if_neg queued]
    by_cases many : (e.open_.filter fun p => p.sym = o.sym).length ≥ maxOpenPerSym
    · rw [if_pos (.inl many), if_pos many]
      exact ⟨together, rfl⟩
    by_cases full : e.open_.length ≥ maxOpenTotal
    · rw [if_pos (.inr full), if_neg many, if_pos full]
      exact ⟨together, rfl⟩
    rw [if_neg (not_or.mpr ⟨many, full⟩), if_neg many, if_neg full]
    have alike := accepted_alike together book stamped m.seq m.accepted
    have next := together.withTable m.tape (e.seqNext + 1)
      (rel_append together.table (.cons alike .nil)) (by
        have len := together.table.length_eq
        rw [length_append, len]
        exact Nat.lt_of_not_le full)
    exact ⟨⟨next.table, next.short, next.queue, next.ordered, next.held, next.shadows, next.plain⟩, rfl⟩

end

theorem cancelQueue_state (m : Matcher) (r : CancelReq) :
    (m.cancelQueue r).1 = match m.queue.get r.clientOid r.strategyId with
      | none => m
      | some h =>
        if h.order.sym ≠ r.sym ∨ symbolVenueByte h.order.sym ≠ r.venue then m
        else { m with queue := (m.queue.cancel r.clientOid r.strategyId
          (addNs r.tsNs (activation (symbolVenueByte h.order.sym)))).1 } := by
  unfold Matcher.cancelQueue QueueBook.get
  cases find m.queue.orders r.clientOid r.strategyId with
  | error why => cases why <;> rfl
  | ok i =>
    dsimp only
    cases m.queue.orders[i]? with
    | none => rfl
    | some h =>
      dsimp only
      split
      · rfl
      · generalize m.queue.cancel _ _ _ = answer
        obtain ⟨q, _ | _⟩ := answer <;> rfl

theorem modifyQueue_state (m : Matcher) (r : ModifyReq) (nowNs : Nat) :
    (m.modifyQueue r nowNs).1 = match m.queue.get r.prevClientOid r.order.strategyId with
      | none => m
      | some h =>
        if judgedByQueue (symbolVenueByte r.order.sym) r.order.kind r.order.postOnly = false ∨
            h.order.sym ≠ r.order.sym ∨ h.order.side ≠ r.order.side ∨ r.order.px ≤ 0 ∨ r.order.qty ≤ 0 then m
        else { m with queue := (m.queue.modify r.prevClientOid
          (Matcher.queuePlace r.order (symbolVenueByte r.order.sym) nowNs)).1 } := by
  unfold Matcher.modifyQueue QueueBook.get
  dsimp only
  cases find m.queue.orders r.prevClientOid r.order.strategyId with
  | error why => cases why <;> rfl
  | ok i =>
    dsimp only
    cases m.queue.orders[i]? with
    | none => rfl
    | some h =>
      dsimp only
      by_cases other : judgedByQueue (symbolVenueByte r.order.sym) r.order.kind r.order.postOnly = false ∨
          h.order.sym ≠ r.order.sym ∨ h.order.side ≠ r.order.side
      · rw [if_pos other, if_pos (by tauto)]
      rw [if_neg other]
      by_cases empty : r.order.px ≤ 0 ∨ r.order.qty ≤ 0
      · rw [if_pos empty, if_pos (by tauto)]
      · rw [if_neg empty, if_neg (by tauto)]
        generalize m.queue.modify _ _ = answer
        obtain ⟨q, _ | _⟩ := answer <;> rfl

theorem get_listed {good : SymbolId → Prop} {q : QueueBook} (ordered : q.Ordered good) {slot : Nat} {h : Held}
    (found : q.get clientOid slot = some h) : good h.order.sym := by
  unfold QueueBook.get at found
  split at found
  · exact ordered.listed h (mem_of_getElem? found)
  · cases found

def Order.cancelReq (o : Order) : CancelReq := ⟨o.tsNs, o.prevClientOid, o.sym, o.venue, o.strategyId⟩

def Order.modifyReq (o : Order) : ModifyReq := ⟨o.prevClientOid, o.toOrder⟩

def Named (m : Matcher) (o : Order) : Bool :=
  match m.findResting o.prevClientOid o.strategyId with
  | .one i => (m.open_[i]?).all fun p => p.ident.sym = o.sym
  | .none => (m.queue.get o.prevClientOid o.strategyId).all fun h => h.order.sym = o.sym
  | .many => true

/-- No id of several open orders is the id of one queued order too. -/
def Distinct (m : Matcher) (o : Order) : Prop :=
  m.findResting o.prevClientOid o.strategyId = .many → m.queue.get o.prevClientOid o.strategyId = none

theorem cancelQueue_together (together : Together params law m e) (book : BookSym params law o.sym)
    (stamped : o.venue = symbolVenueByte o.sym)
    (named : ∀ h, m.queue.get o.prevClientOid o.strategyId = some h → h.order.sym = o.sym) :
    Together params law (m.cancelQueue o.cancelReq).1 (e.intakeQueueCancel o o.tsNs) ∧
      (m.cancelQueue o.cancelReq).1.tape.out = m.tape.out := by
  rw [cancelQueue_state, intakeQueueCancel, ← together.queue, Order.cancelReq]
  dsimp only
  cases found : m.queue.get o.prevClientOid o.strategyId with
  | none => exact ⟨together, rfl⟩
  | some h =>
    have own := named h found
    have venue := get_listed together.ordered found
    have delay : e.queueDelayOf (modelVenueByte h.order.sym) = activation (symbolVenueByte h.order.sym) := by
      rw [queueDelayOf, together.plain.delay, together.plain.params, Option.getD_none, modelVenueByte_queue venue, venue]
      exact book.queueDelay (own ▸ venue)
    have same : ¬(h.order.sym ≠ o.sym ∨ symbolVenueByte h.order.sym ≠ o.venue) := by
      rw [stamped, own]
      simp only [ne_eq, not_true_eq_false, or_self, not_false_eq_true]
    dsimp only
    rw [if_neg same, delay]
    exact ⟨together.withQueue (QueueBook.cancel_ordered together.ordered _ _ _) e.queueOos, rfl⟩

theorem cancel_together (together : Together params law m e) (book : BookSym params law o.sym)
    (stamped : o.venue = symbolVenueByte o.sym) (named : Named m o = true) (distinct : Distinct m o) :
    Together params law (m.cancel o.cancelReq).1 (e.intakeCancel o o.tsNs) ∧
      (m.cancel o.cancelReq).1.tape.out = m.tape.out := by
  unfold Matcher.cancel intakeCancel
  unfold Named at named
  rw [findResting_same together.table]
  have asked : m.findResting o.cancelReq.clientOid o.cancelReq.strategyId = m.findResting o.prevClientOid o.strategyId := rfl
  rw [asked]
  cases found : m.findResting o.prevClientOid o.strategyId with
  | none =>
    rw [found] at named
    refine cancelQueue_together together book stamped ?_
    intro h queued
    simpa only [queued, Option.all_some, decide_eq_true_eq] using named
  | many =>
    have free := distinct found
    rw [together.queue] at free
    simp only [Resting.index, intakeQueueCancel, free]
    exact ⟨together, trivial⟩
  | one i =>
    simp only [Resting.index]
    rcases together.table.entry (i := i) with ⟨gone, missing⟩ | ⟨p, q, here, there, alike⟩
    · rw [gone, eraseIdx_of_length_le (getElem?_eq_none_iff.mp missing)]
      exact ⟨together, rfl⟩
    have own : p.ident.sym = o.sym := by simpa only [found, here, Option.all_some, decide_eq_true_eq] using named
    have same : ¬(p.ident.sym ≠ o.cancelReq.sym ∨ p.ident.venue ≠ o.cancelReq.venue) := by
      obtain ⟨-, -, sym, -⟩ := alike.fields
      rw [Order.cancelReq, alike.stamped, stamped, ← sym, own]
      simp only [ne_eq, not_true_eq_false, or_self, not_false_eq_true]
    rw [here]
    dsimp only
    rw [if_neg same]
    have shorter := (length_eraseIdx_le m.open_ i).trans together.short
    exact ⟨together.withTable _ e.seqNext (together.table.erase i) shorter, rfl⟩

theorem modifyQueue_together (together : Together params law m e) (book : BookSym params law o.sym) :
    Together params law (m.modifyQueue o.modifyReq o.tsNs).1 (e.intakeQueueModify o o.tsNs) ∧
      (m.modifyQueue o.modifyReq o.tsNs).1.tape.out = m.tape.out := by
  rw [modifyQueue_state, intakeQueueModify, ← together.queue, Order.modifyReq]
  dsimp only
  rw [judgedByQueue_same]
  cases found : m.queue.get o.prevClientOid o.strategyId with
  | none => exact ⟨together, rfl⟩
  | some h =>
    dsimp only
    by_cases refused : judgedByQueue (symbolVenueByte o.sym) o.kind o.postOnly = false ∨ h.order.sym ≠ o.sym ∨
        h.order.side ≠ o.side ∨ o.px ≤ 0 ∨ o.qty ≤ 0
    · rw [if_pos refused, if_pos refused]
      exact ⟨together, rfl⟩
    rw [if_neg refused, if_neg refused]
    have queued : judgedByQueue (symbolVenueByte o.sym) o.kind o.postOnly = true :=
      eq_true_of_ne_false (not_or.mp refused).1
    have venue := queued_venue queued
    have ordered : (m.queue.modify o.prevClientOid (Matcher.queuePlace o.toOrder (symbolVenueByte o.sym) o.tsNs)).1.Ordered
        fun sym => symbolVenueByte sym = venueHyperliquid := QueueBook.modify_ordered together.ordered o.prevClientOid venue
    rw [together.plain.queuePlace book venue]
    generalize m.queue.modify _ _ = answer at ordered ⊢
    obtain ⟨q, why | _⟩ := answer
    · exact ⟨together.withQueue ordered e.queueOos, rfl⟩
    · exact ⟨together.withQueue ordered _, rfl⟩

theorem Alike.identity {q : OpenOrder} (alike : Alike p q)
    (stamped : o.venue = symbolVenueByte o.sym) (slot : p.ident.strategyId = o.strategyId) :
    p.ident = .of o.toOrder ↔ q.sym = o.sym ∧ q.side = o.side ∧ q.kind = o.kind ∧ q.venue = modelVenueByte o.sym := by
  obtain ⟨-, -, sym, side, kind, -⟩ := alike.fields
  have venue := alike.stamped
  have routed := alike.routed
  constructor
  · intro same
    rw [same] at sym side kind
    refine ⟨sym.symm, side.symm, kind.symm, ?_⟩
    rw [routed, ← sym]
    rfl
  · rintro ⟨sameSym, sameSide, sameKind, -⟩
    rw [sameSym] at venue sym
    rw [sameSide] at side
    rw [sameKind] at kind
    obtain ⟨_, _, _, _, _, _, ⟨_, _, _, _, _⟩, _, _⟩ := p
    simp only [OrderIdentity.of, OrderIdentity.mk.injEq]
    exact ⟨sym, venue.trans stamped.symm, slot, side, kind⟩

theorem Alike.modified {q : OpenOrder} (alike : Alike p q) (px qty : Int) (clientOid active : Nat) :
    Alike (p.modified px qty clientOid active)
      { q with px1e6 := px, remaining1e6 := qty, clientOid := clientOid, tActiveNs := active } := by
  obtain ⟨-, expiry, sym, side, kind, -, -, -, slot⟩ := alike.fields
  refine ⟨?_, alike.stamped, alike.judged, alike.routed⟩
  simp only [Quote.ofPending, Quote.ofOpen, Pending.modified, expiry, sym, side, kind, slot]

theorem findFrom_one : ∀ {ps : List Pending} {k : Nat} {found : Matcher.Resting},
    Matcher.findFrom clientOid strategyId ps k found = .one i →
      found = .one i ∨ ∃ p, ps[i - k]? = some p ∧ k ≤ i ∧ p.ident.strategyId = strategyId := by
  intro ps
  induction ps with
  | nil => exact fun same => .inl same
  | cons p rest ih =>
    intro k found same
    have later : ∀ {found}, Matcher.findFrom clientOid strategyId rest (k + 1) found = .one i →
        found = .one i ∨ ∃ q, (p :: rest)[i - k]? = some q ∧ k ≤ i ∧ q.ident.strategyId = strategyId := by
      intro found same
      rcases ih same with now | ⟨q, here, after, slot⟩
      · exact .inl now
      · refine .inr ⟨q, ?_, by omega, slot⟩
        rw [show i - k = i - (k + 1) + 1 by omega]
        exact here
    by_cases matched : p.clientOid = clientOid ∧ p.ident.strategyId = strategyId
    · cases found with
      | none =>
        simp only [Matcher.findFrom, if_pos matched] at same
        rcases later same with now | found
        · cases now
          exact .inr ⟨p, by rw [Nat.sub_self]; rfl, Nat.le_refl _, matched.2⟩
        · exact .inr found
      | _ =>
        simp only [Matcher.findFrom, if_pos matched] at same
        cases same
    · simp only [Matcher.findFrom, if_neg matched] at same
      exact later same

theorem findResting_slot (found : m.findResting clientOid strategyId = .one i)
    (here : m.open_[i]? = some p) : p.ident.strategyId = strategyId := by
  rcases findFrom_one found with now | ⟨q, there, -, slot⟩
  · cases now
  · rw [Nat.sub_zero, here] at there
    cases there
    exact slot

theorem modify_together (together : Together params law m e) (book : BookSym params law o.sym)
    (stamped : o.venue = symbolVenueByte o.sym) (distinct : Distinct m o) :
    Together params law (m.modify o.modifyReq o.tsNs).1 (e.intakeModify o o.tsNs) ∧
      (m.modify o.modifyReq o.tsNs).1.tape.out = m.tape.out := by
  unfold Matcher.modify intakeModify
  rw [findResting_same together.table]
  have asked : m.findResting o.modifyReq.prevClientOid o.modifyReq.order.strategyId =
      m.findResting o.prevClientOid o.strategyId := rfl
  rw [asked]
  cases found : m.findResting o.prevClientOid o.strategyId with
  | none => exact modifyQueue_together together book
  | many =>
    have free := distinct found
    rw [together.queue] at free
    simp only [Resting.index, intakeQueueModify, free]
    exact ⟨together, trivial⟩
  | one i =>
    simp only [Resting.index]
    rcases together.table.entry (i := i) with ⟨gone, missing⟩ | ⟨p, q, here, there, alike⟩
    · rw [gone, missing]
      exact ⟨together, rfl⟩
    have identity := alike.identity stamped (findResting_slot found here)
    rw [here, there, Order.modifyReq]
    dsimp only
    by_cases other : p.ident ≠ .of o.toOrder
    · have differs : q.sym ≠ o.sym ∨ q.side ≠ o.side ∨ q.kind ≠ o.kind ∨ q.venue ≠ modelVenueByte o.sym ∨ o.px ≤ 0 ∨
          o.qty ≤ 0 := by
        rw [ne_eq, identity] at other
        tauto
      rw [if_pos other, if_pos differs]
      exact ⟨together, rfl⟩
    · obtain ⟨sym, side, kind, venue⟩ := identity.mp (not_not.mp other)
      rw [if_neg other]
      by_cases empty : o.px ≤ 0 ∨ o.qty ≤ 0
      · rw [if_pos empty, if_pos (by tauto)]
        exact ⟨together, rfl⟩
      rw [if_neg empty, if_neg (by tauto)]
      have delay : e.params.latencyNs (e.deltaVenue q.sym q.venue) = activation p.modelVenue := by
        rw [together.plain.params, deltaVenue, together.plain.law, venue, alike.judged, sym]
        exact book.delay
      rw [delay]
      have next := together.table.set i (alike.modified o.px o.qty o.clientOid (addNs o.tsNs (activation p.modelVenue)))
      have short : (m.open_.set i (p.modified o.px o.qty o.clientOid
          (addNs o.tsNs (activation p.modelVenue)))).length ≤ maxOpenTotal := by
        rw [length_set]
        exact together.short
      exact ⟨together.withTable _ e.seqNext next short, rfl⟩

end Intents

/-! ### Records -/

section Records

variable {params : ModelParams} {law : Bool} {m : Matcher} {e : FillEngine} {more : Nat}

theorem events_same {symClass : SymbolId → Option InstrumentClass} (plain : NoPrediction symClass) (events : List Told)
    {t : Tape} {s : (Accounts × List SynthFill) × (Nat × Nat → Option Bool)}
    (fills : SameFills (more + events.length) t s.1.2) :
    SameFills more (events.foldl (fun t e =>
      if e.event.kind = .fill then
        t.pushFillOf e.event.sym e.event.side e.event.clientOid e.event.slot e.event.px1e6 e.event.qty1e6 e.event.tNs
      else t) t) (events.foldl (FillEngine.bookEvent symClass) s).1.2 := by
  induction events generalizing t s with
  | nil => exact fills
  | cons told rest ih =>
    rw [length_cons, ← Nat.add_assoc] at fills
    have fewer := fills.fewer (Nat.le_succ _)
    rw [foldl_cons, foldl_cons]
    apply ih
    unfold bookEvent
    dsimp only
    cases told.event.kind with
    | fill =>
      rw [if_pos rfl]
      dsimp only
      rw [bookFill_plain plain]
      exact fills.push rfl
    | _ =>
      rw [if_neg nofun]
      exact fewer

theorem drainQueue_together (together : Together params law m e) (fills : SameFills (more + queueOutCap) m.tape out) :
    Together params law m.drainQueue (e.drainQueue out).1 ∧ SameFills more m.drainQueue.tape (e.drainQueue out).2 := by
  obtain ⟨ordered, few⟩ := QueueBook.drain_ordered together.ordered
  obtain ⟨table, short, queue, -, held, shadows, plain⟩ := together
  have enough := fills.fewer (Nat.add_le_add_left few more)
  unfold Matcher.drainQueue drainQueue
  rw [← queue]
  exact ⟨⟨table, short, rfl, ordered, held, shadows, plain.moved ..⟩,
    events_same plain.classes _ (s := ((e.accounts, out), e.queueOos)) enough⟩

theorem queueTick_together (together : Together params law m e) (t : Paper.Tick) (nowNs : Nat)
    (fills : SameFills (more + queueOutCap) m.tape []) :
    Together params law (m.queueTick t nowNs) (e.queueTick t nowNs).1 ∧
      SameFills more (m.queueTick t nowNs).tape (e.queueTick t nowNs).2 := by
  unfold Matcher.queueTick queueTick
  rw [queueVenue_same]
  split
  · dsimp only
    rw [← together.queue]
    have ordered := QueueBook.onBook_ordered together.ordered t.sym (if isFillEvidence t then t.touch else ⟨0, 0, 0, 0⟩) nowNs
    exact drainQueue_together (together.withQueue ordered e.queueOos) fills
  · exact ⟨together, fills.fewer (Nat.le_add_right _ _)⟩

theorem trade_together (together : Together params law m e) (sym : SymbolId) (px qty : Int) (sell : Bool) (nowNs : Nat)
    (fills : SameFills (more + queueOutCap) m.tape []) :
    Together params law (m.observeTrade sym px qty sell nowNs) (e.onTrade sym px qty sell nowNs).1 ∧
      SameFills more (m.observeTrade sym px qty sell nowNs).tape (e.onTrade sym px qty sell nowNs).2 := by
  unfold Matcher.observeTrade onTrade
  rw [queueVenue_same]
  split
  · rw [← together.queue]
    have ordered := QueueBook.onPrint_ordered together.ordered sym px qty sell nowNs
    exact drainQueue_together (together.withQueue ordered e.queueOos) fills
  · exact ⟨together, fills.fewer (Nat.le_add_right _ _)⟩

theorem Plain.clocks (plain : Plain params law e) (wallNs : Nat) : e.clocks wallNs = { e with
      lastWallNs := wallNs
      settleDueNs := if wallNs ≥ e.settleDueNs then u64Max else e.settleDueNs
      binaryDueNs := if wallNs ≥ e.binaryDueNs then u64Max else e.binaryDueNs } := by
  have settles : ∀ e : FillEngine, e.optSettle1e6 = [] → e.settlePass wallNs = { e with settleDueNs := u64Max } := by
    intro e none
    rw [settlePass, none, filter_nil, foldl_nil, refreshSettleDue, none, foldl_nil]
  have pays : ∀ e : FillEngine, e.binarySettle = [] → e.binaryPass wallNs = { e with binaryDueNs := u64Max } := by
    intro e none
    have fuel : e.binaryFuel = 0 := by rw [binaryFuel, none, map_nil, sum_nil]
    rw [binaryPass, fuel, binaryLoop, refreshBinaryDue, none, foldl_nil]
  unfold FillEngine.clocks
  dsimp only
  by_cases option : wallNs ≥ e.settleDueNs
  · rw [if_pos option, if_pos option, settles { e with lastWallNs := wallNs } plain.options]
    by_cases binary : wallNs ≥ e.binaryDueNs
    · rw [if_pos binary, if_pos binary, pays { e with lastWallNs := wallNs, settleDueNs := u64Max } plain.binaries]
    · rw [if_neg binary, if_neg binary]
  · rw [if_neg option, if_neg option]
    by_cases binary : wallNs ≥ e.binaryDueNs
    · rw [if_pos binary, if_pos binary, pays { e with lastWallNs := wallNs } plain.binaries]
    · rw [if_neg binary, if_neg binary]

theorem expire_queueTick (e : FillEngine) (sym : SymbolId) (t : Paper.Tick) (nowNs : Nat) :
    (e.expire sym nowNs).queueTick t nowNs = ((e.queueTick t nowNs).1.expire sym nowNs, (e.queueTick t nowNs).2) := by
  unfold queueTick
  split <;> rfl

theorem onQuote_tables (held : HeldBook) (t : Paper.Tick) :
    (held.onQuote t).pending = held.pending ∧ (held.onQuote t).shadow = held.shadow := by
  unfold HeldBook.onQuote HeldBook.withdraw HeldBook.publish
  repeat' split
  all_goals exact ⟨rfl, rfl⟩

section

variable (together : Together params law m e)

include together

theorem expire_together (sym : SymbolId) (nowNs : Nat) :
    Together params law (m.expire sym nowNs) (e.expire sym nowNs) ∧ (m.expire sym nowNs).tape.out = m.tape.out := by
  obtain ⟨same, ring⟩ := expire_table sym nowNs together.table m.tape
  have kept := length_filter_le (fun o : OpenOrder => !(o.sym = sym ∧ expiredAt nowNs o.expiryNs)) e.open_
  have short : (visit (Matcher.expireVisit sym nowNs) [] m.open_ m.tape).1.length ≤ maxOpenTotal := by
    rw [same.length_eq]
    exact kept.trans (together.table.length_eq ▸ together.short)
  exact ⟨together.withTable _ e.seqNext same short, ring⟩

theorem cross_together (t : Paper.Tick) (nowNs : Nat) (mark : Int) (fills : SameFills maxOpenTotal m.tape out) :
    Together params law (m.cross t.sym t.touch nowNs) (e.cross t nowNs mark out).1 ∧
      SameFills 0 (m.cross t.sym t.touch nowNs).tape (e.cross t nowNs mark out).2 := by
  have start : SameCross m.open_.length (Budget.of t.touch, m.tape) (Budget.of t.touch, e.accounts, out) :=
    ⟨rfl, fills.fewer together.short⟩
  obtain ⟨same, -, told⟩ := visit_related (f := Matcher.fillVisit t.sym nowNs t.touch)
    (g := fillVisit e.symClass t.sym nowNs t.touch mark) (fillVisit_same together.plain.classes) together.table start
  have short : (visit (Matcher.fillVisit t.sym nowNs t.touch) [] m.open_ (Budget.of t.touch, m.tape)).1.length ≤
      maxOpenTotal := (visit_length_le _ _ _).trans together.short
  obtain ⟨-, -, queue, ordered, held, shadows, plain⟩ := together
  exact ⟨⟨same, short, queue, ordered, held, shadows, plain.moved ..⟩, told⟩

theorem judgeTick_together (t : Paper.Tick) (nowNs : Nat)
    (fills : SameFills maxOpenTotal m.tape out) (fresh : t.stale = false) :
    Together params law (if isFillEvidence t then m.cross t.sym t.touch nowNs else m)
        ((e.markTick t).judgeTick t nowNs out).1 ∧
      SameFills 0 (if isFillEvidence t then m.cross t.sym t.touch nowNs else m).tape
        ((e.markTick t).judgeTick t nowNs out).2 := by
  have plain := together.plain
  have sided : isFillEvidence t = t.touch.twoSided := by
    rw [isFillEvidence, fresh, Touch.twoSided, Tick.touch, Touch.of]
    simp only [Bool.not_false, true_and]
  unfold markTick
  rw [plain.settled t.sym, sided]
  by_cases two : t.touch.twoSided = true
  · rw [if_pos two, if_pos ⟨two, rfl⟩]
    have marked : ((e.accounts.mark t.sym (mid t)).marks1e6 t.sym) = some (mid t) := Function.update_self ..
    unfold judgeTick
    simp only [plain.marked, plain.settled, two, marked, Bool.false_eq_true, and_false, if_false, Bool.not_true]
    refine cross_together ?_ t nowNs (mid t) fills
    obtain ⟨table, short, queue, ordered, held, shadows, plain⟩ := together
    exact ⟨table, short, queue, ordered, held, shadows, plain.moved ..⟩
  · rw [if_neg two, if_neg (fun both => two both.1)]
    unfold judgeTick
    simp only [plain.settled, two, Bool.false_eq_true, false_and, if_false, Bool.not_false, if_true]
    exact ⟨together, fills.fewer (Nat.zero_le _)⟩

theorem tick_together (t : Paper.Tick) (nowNs wallNs : Nat)
    (named : t.sym ≠ symbolIdNone) (fills : SameFills fillOut m.tape []) :
    Together params law (m.observeTick t nowNs) (e.onRecord t nowNs wallNs).1 ∧
      SameFills 0 (m.observeTick t nowNs).tape (e.onRecord t nowNs wallNs).2 := by
  have room : maxOpenTotal + queueOutCap ≤ fillOut := by decide
  have quiet : m.dueHeld t.tsNs nowNs = m := by
    rw [Matcher.dueHeld, together.held, together.shadows]
    rfl
  obtain ⟨pending, shadow⟩ := onQuote_tables m.held t
  have timed : Together params law { m with held := m.held.onQuote t } (e.clocks wallNs) := by
    rw [together.plain.clocks]
    obtain ⟨table, short, queue, ordered, held, shadows, plain⟩ := together
    exact ⟨table, short, queue, ordered, pending.trans held, shadow.trans shadows, plain.moved ..⟩
  obtain ⟨queued, told⟩ := queueTick_together timed t nowNs (fills.fewer room)
  obtain ⟨swept, ring⟩ := expire_together queued t.sym nowNs
  have sweptFills : SameFills maxOpenTotal (({ m with held := m.held.onQuote t }.queueTick t nowNs).expire t.sym nowNs).tape
      ((e.clocks wallNs).queueTick t nowNs).2 := by
    obtain ⟨deals, room, inside⟩ := told
    rw [← ring] at deals room inside
    exact ⟨deals, room, inside⟩
  -- the engine sweeps before its clocks and its queue, the matcher after
  have order : ((e.expire t.sym nowNs).clocks wallNs).queueTick t nowNs =
      (((e.clocks wallNs).queueTick t nowNs).1.expire t.sym nowNs, ((e.clocks wallNs).queueTick t nowNs).2) := by
    have kept : Plain params law (e.expire t.sym nowNs) := together.plain.moved ..
    rw [← expire_queueTick, kept.clocks, together.plain.clocks]
    rfl
  unfold Matcher.observeTick onRecord
  rw [if_neg named, quiet, order]
  dsimp only
  by_cases stale : t.stale = true
  · have noEvidence : isFillEvidence t = false := by
      rw [isFillEvidence, stale]
      rfl
    rw [if_pos stale, noEvidence]
    exact ⟨swept, sweptFills.fewer (Nat.zero_le _)⟩
  · rw [if_neg stale]
    exact judgeTick_together swept t nowNs sweptFills (Bool.not_eq_true _ ▸ stale)

end

end Records

/-! ### Runs -/

inductive Event where
  | order (o : Order)
  | tick (t : Paper.Tick) (nowNs wallNs : Nat)
  | trade (sym : SymbolId) (px1e6 qty1e6 : Int) (sell : Bool) (nowNs : Nat)

def paperEvent (m : Matcher) : Event → Matcher
  | .order o =>
    match o.verb with
    | .place => m.submit o.toOrder o.tsNs
    | .cancel => (m.cancel o.cancelReq).1
    | .modify => (m.modify o.modifyReq o.tsNs).1
    | .unknown => m
  | .tick t nowNs _ => m.observeTick t nowNs
  | .trade sym px qty sell nowNs => m.observeTrade sym px qty sell nowNs

/-- The fills are taken out after each event. -/
def paperStep (s : Matcher × List Fill) (ev : Event) : Matcher × List Fill :=
  let m := paperEvent s.1 ev
  let (fills, out) := m.tape.out.drain fillOut m.tape.out.len
  ({ m with tape := { m.tape with out } }, s.2 ++ fills)

def replayEvent (e : FillEngine) : Event → FillEngine × List SynthFill
  | .order o => (e.intake o o.tsNs, [])
  | .tick t nowNs wallNs => e.onRecord t nowNs wallNs
  | .trade sym px qty sell nowNs => e.onTrade sym px qty sell nowNs

def replayStep (s : FillEngine × List SynthFill) (ev : Event) : FillEngine × List SynthFill :=
  ((replayEvent s.1 ev).1, s.2 ++ (replayEvent s.1 ev).2)

/-- An event both sides are to agree on. -/
def Proper (params : ModelParams) (law : Bool) (s : Matcher × List Fill) : Event → Prop
  | .order o => BookSym params law o.sym ∧ o.venue = symbolVenueByte o.sym ∧ (o.verb = .cancel → Named s.1 o = true)
  | .tick t _ _ => BookSym params law t.sym
  | .trade sym _ _ _ _ => BookSym params law sym

/-- A cancel or a modify names no shared id that one queued order carries too. -/
def Apart (s : Matcher × List Fill) : Event → Prop
  | .order o => o.verb = .cancel ∨ o.verb = .modify → Distinct s.1 o
  | _ => True

/-- The same open and queued orders, in the same order, and the same fills. -/
structure Agree (s : Matcher × List Fill) (r : FillEngine × List SynthFill) : Prop where
  open_ : s.1.open_.map Quote.ofPending = r.1.open_.map Quote.ofOpen
  queue : s.1.queue = r.1.queue
  fills : s.2.map Deal.ofFill = r.2.map Deal.ofSynth

section Runs

variable {params : ModelParams} {law : Bool}

/-- Between events the two sides are together and the ring is empty. -/
structure InStep (params : ModelParams) (law : Bool) (s : Matcher × List Fill) (r : FillEngine × List SynthFill) : Prop where
  together : Together params law s.1 r.1
  empty : s.1.tape.out.len = 0
  inside : s.1.tape.out.head < fillOut
  fills : s.2.map Deal.ofFill = r.2.map Deal.ofSynth

theorem BookSym.named {sym : SymbolId} (book : BookSym params law sym) : sym ≠ symbolIdNone := by
  rintro rfl
  have venue := book.venue
  revert venue
  decide

theorem intent_together {m : Matcher} {e : FillEngine} (together : Together params law m e) {fills : List Fill}
    (proper : Proper params law (m, fills) (.order o)) (apart : Apart (m, fills) (.order o)) :
    Together params law (paperEvent m (.order o)) (e.intake o o.tsNs) ∧
      (paperEvent m (.order o)).tape.out = m.tape.out := by
  obtain ⟨book, stamped, named⟩ := proper
  unfold paperEvent intake
  dsimp only
  cases verb : o.verb with
  | place => exact place_together together book stamped
  | cancel => exact cancel_together together book stamped (named verb) (apart (.inl verb))
  | modify => exact modify_together together book stamped (apart (.inr verb))
  | unknown => exact ⟨together, rfl⟩

theorem event_together {s : Matcher × List Fill} {r : FillEngine × List SynthFill} (inStep : InStep params law s r)
    (ev : Event) (proper : Proper params law s ev) (apart : Apart s ev) :
    Together params law (paperEvent s.1 ev) (replayEvent r.1 ev).1 ∧
      SameFills 0 (paperEvent s.1 ev).tape (replayEvent r.1 ev).2 := by
  obtain ⟨together, empty, inside, -⟩ := inStep
  have start : SameFills fillOut s.1.tape [] := by
    refine ⟨?_, by rw [empty, Nat.zero_add], inside⟩
    rw [RingBuffer.contents, empty]
    rfl
  have room : 0 + queueOutCap ≤ fillOut := by decide
  cases ev with
  | order o =>
    obtain ⟨next, ring⟩ := intent_together together proper apart
    obtain ⟨deals, bound, headed⟩ := start.fewer (Nat.zero_le _)
    rw [← ring] at deals bound headed
    exact ⟨next, deals, bound, headed⟩
  | tick t nowNs wallNs => exact tick_together together t nowNs wallNs proper.named start
  | trade sym px qty sell nowNs => exact trade_together together sym px qty sell nowNs (start.fewer room)

theorem step_inStep {s : Matcher × List Fill} {r : FillEngine × List SynthFill} (ev : Event)
    (both : Proper params law s ev ∧ Apart s ev) (inStep : InStep params law s r) :
    InStep params law (paperStep s ev) (replayStep r ev) := by
  obtain ⟨proper, apart⟩ := both
  obtain ⟨⟨table, short, queue, ordered, held, shadows, plain⟩, told⟩ := event_together inStep ev proper apart
  obtain ⟨listed, headed, emptied⟩ := RingBuffer.drain_contents told.inside
  refine ⟨⟨table, short, queue, ordered, held, shadows, plain⟩, emptied, headed, ?_⟩
  change (s.2 ++ _).map Deal.ofFill = (r.2 ++ _).map Deal.ofSynth
  rw [map_append, map_append, inStep.fills, listed, told.deals]

end Runs

def replayOf (params : ModelParams) (boundaryVirtNs : Nat) (symClass : SymbolId → Option InstrumentClass) (law : Bool) :
    FillEngine := { FillEngine.new params boundaryVirtNs with symClass, deltaBySymbolVenue := law }

theorem replayOf_inStep {params : ModelParams} (boundaryVirtNs : Nat) {symClass : SymbolId → Option InstrumentClass}
    {law : Bool} (plain : NoPrediction symClass) :
    InStep params law (Matcher.new, []) (replayOf params boundaryVirtNs symClass law, []) := by
  refine ⟨⟨.nil, Nat.zero_le _, rfl, ⟨?_, Nat.zero_le _⟩, rfl, rfl, ?_⟩, rfl, by decide, rfl⟩
  · intro h member
    cases member
  · exact ⟨rfl, rfl, plain, fun _ => rfl, fun _ => rfl, rfl, rfl, rfl, rfl⟩

/-- Over every list of orders, ticks and prints that are apart, paper and replay agree. -/
theorem paper_and_replay_agree (params : ModelParams) (boundaryVirtNs : Nat)
    (symClass : SymbolId → Option InstrumentClass) (law : Bool) (plain : NoPrediction symClass) (events : List Event)
    (along : Along paperStep (fun s ev => Proper params law s ev ∧ Apart s ev) (Matcher.new, []) events) :
    Agree (run paperStep (Matcher.new, []) events)
      (run replayStep (replayOf params boundaryVirtNs symClass law, []) events) := by
  have inStep := run_related (R := InStep params law) (replayOf_inStep boundaryVirtNs plain)
    (fun s r ev both related => step_inStep ev both related) along
  exact ⟨inStep.together.table.quotes, inStep.together.queue, inStep.fills⟩

def paperParams : ModelParams := ⟨activation, 0⟩

def hlSym : SymbolId := 67108865

theorem hlSym_venue : symbolVenueByte hlSym = venueHyperliquid := by decide

theorem hlSym_book : BookSym paperParams true hlSym := ⟨by decide, by decide, rfl⟩

def hlOrder (verb : Verb) (postOnly : Bool) (tsNs : Nat) (px : Int) : Order :=
  ⟨⟨tsNs, hlSym, .bid, .maker, postOnly, px, 1000000, 1, 0, venueHyperliquid, 0⟩, verb, 1⟩

theorem maker_then_tick_agrees : Agree
    (run paperStep (Matcher.new, []) [.order (hlOrder .place false 0 5), .tick ⟨1, hlSym, false, ⟨3, 4, 1, 1⟩⟩ 9000000000 1])
    (run replayStep (replayOf paperParams 0 (fun _ => none) true, [])
      [.order (hlOrder .place false 0 5), .tick ⟨1, hlSym, false, ⟨3, 4, 1, 1⟩⟩ 9000000000 1]) := by
  refine paper_and_replay_agree paperParams 0 (fun _ => none) true nofun _
    ⟨⟨⟨hlSym_book, hlSym_venue.symm, nofun⟩, ?_⟩, ?_⟩
  · rintro (verb | verb) <;> cases verb
  · exact ⟨⟨hlSym_book, trivial⟩, trivial⟩

/-- Two open orders and one queued order share an id: the paper cancel stops at the open orders, the replayed one goes
on to the queue. -/
theorem shared_id_cancels_the_queued_order :
    Along paperStep (Proper paperParams true) (Matcher.new, [])
        [.order (hlOrder .place false 0 5), .order (hlOrder .place false 0 5), .order (hlOrder .place true 0 5),
          .order (hlOrder .cancel false 1 5)] ∧
      ¬Agree (run paperStep (Matcher.new, [])
          [.order (hlOrder .place false 0 5), .order (hlOrder .place false 0 5), .order (hlOrder .place true 0 5),
            .order (hlOrder .cancel false 1 5)])
        (run replayStep (replayOf paperParams 0 (fun _ => none) true, [])
          [.order (hlOrder .place false 0 5), .order (hlOrder .place false 0 5), .order (hlOrder .place true 0 5),
            .order (hlOrder .cancel false 1 5)]) := by
  have placed : ∀ s postOnly, Proper paperParams true s (.order (hlOrder .place postOnly 0 5)) :=
    fun s postOnly => ⟨hlSym_book, hlSym_venue.symm, nofun⟩
  refine ⟨⟨placed _ _, placed _ _, placed _ _, ⟨hlSym_book, hlSym_venue.symm, fun _ => by decide⟩, trivial⟩, ?_⟩
  intro agree
  have cancels := congrArg (fun q => q.orders.map fun h => h.order.cancelNs) agree.queue
  revert cancels
  decide

end TradingEngine.Backtest
