import TradingEngine.Backtest.Engine

/-!
# Paper and replay, call by call

The paper matcher and the fill engine keep their own tables and judge them by the same laws.
-/

namespace TradingEngine.Queue

open Base CoreTypes List

/-! ### What a queue book never does

The ring stays within its capacity, and every order stays on the symbols it was placed for. -/

structure Tidy (good : SymbolId → Prop) (orders : List Held) (out : Outbox) : Prop where
  listed : ∀ h ∈ orders, good h.order.sym
  ring : out.ring.len ≤ queueOutCap

theorem Outbox.emit_len (out : Outbox) (tNs : Nat) (h : Held) (kind : EventKind) (reason : EventReason) (qty : Int)
    (fits : out.ring.len ≤ queueOutCap) : (out.emit tNs h kind reason qty).ring.len ≤ queueOutCap := by
  unfold Outbox.emit
  split
  · exact fits
  · change out.ring.len + 1 ≤ queueOutCap
    omega

section Passes

variable {good : SymbolId → Prop} {orders : List Held}

theorem visit_tidy {σ : Type} {f : List Held → Held → List Held → σ → Option Held × σ} (out : σ → Outbox)
    (each : ∀ done h rest s, (∀ k ∈ (f done h rest s).1, k.order.sym = h.order.sym) ∧
      ((out s).ring.len ≤ queueOutCap → (out (f done h rest s).2).ring.len ≤ queueOutCap))
    {s : σ} (tidy : Tidy good orders (out s)) : Tidy good (visit f [] orders s).1 (out (visit f [] orders s).2) := by
  have start : (∀ h : Held, h ∈ [] ++ orders → good h.order.sym) ∧ (out s).ring.len ≤ queueOutCap := ⟨tidy.listed, tidy.ring⟩
  have pass : (∀ h : Held, h ∈ (visit f [] orders s).1 ++ [] → good h.order.sym) ∧
      (out (visit f [] orders s).2).ring.len ≤ queueOutCap := by
    refine visit_rule (P := fun done rest s => (∀ h : Held, h ∈ done ++ rest → good h.order.sym) ∧
      (out s).ring.len ≤ queueOutCap) ?_ start
    rintro done h rest s ⟨listed, fits⟩
    obtain ⟨same, bounded⟩ := each done h rest s
    refine ⟨?_, bounded fits⟩
    intro k member
    rw [append_assoc, mem_append, mem_append, Option.mem_toList] at member
    rcases member with before | here | after
    · exact listed k (mem_append_left _ before)
    · rw [same k here]
      exact listed h (mem_append_right _ mem_cons_self)
    · exact listed k (mem_append_right _ (mem_cons_of_mem _ after))
  rw [append_nil] at pass
  exact ⟨pass.1, pass.2⟩

theorem land_tidy (sym : SymbolId) (tNs : Nat) (known : Bool) (tb : Touch) (parity : Bool) (done : List Held) (h : Held)
    (rest : List Held) (out : Outbox) :
    (∀ k ∈ (land sym tNs known tb parity done h rest out).1, k.order.sym = h.order.sym) ∧
      (out.ring.len ≤ queueOutCap → (land sym tNs known tb parity done h rest out).2.ring.len ≤ queueOutCap) := by
  unfold land
  dsimp only
  repeat' split
  all_goals
    refine ⟨?_, fun fits => ?_⟩
    · rintro k ⟨⟩ <;> rfl
    · first
        | exact fits
        | exact out.emit_len _ _ _ _ _ fits

theorem lapse_tidy (sym : SymbolId) (tNs : Nat) (done : List Held) (h : Held) (rest : List Held) (out : Outbox) :
    (∀ k ∈ (lapse sym tNs done h rest out).1, k.order.sym = h.order.sym) ∧
      (out.ring.len ≤ queueOutCap → (lapse sym tNs done h rest out).2.ring.len ≤ queueOutCap) := by
  unfold lapse
  dsimp only
  split
  · exact ⟨nofun, fun fits => out.emit_len _ _ _ _ _ fits⟩
  · exact ⟨by rintro k ⟨⟩; rfl, id⟩

theorem takes_tidy (sym : SymbolId) (px : Int) (hit : Side) (tNs : Nat) (done : List Held) (h : Held) (rest : List Held)
    (s : Int × Outbox) :
    (∀ k ∈ (takes sym px hit tNs done h rest s).1, k.order.sym = h.order.sym) ∧
      (s.2.ring.len ≤ queueOutCap → (takes sym px hit tNs done h rest s).2.2.ring.len ≤ queueOutCap) := by
  unfold takes
  dsimp only
  repeat' split
  · exact ⟨by rintro k ⟨⟩; rfl, id⟩
  · exact ⟨by rintro k ⟨⟩; rfl, id⟩
  · exact ⟨by rintro k ⟨⟩; rfl, fun fits => s.2.emit_len _ _ _ _ _ fits⟩
  · refine ⟨nofun, fun fits => ?_⟩
    exact Outbox.emit_len _ _ _ _ _ _ (s.2.emit_len _ _ _ _ _ fits)

end Passes

namespace QueueBook

variable {good : SymbolId → Prop} {b : QueueBook}

def Ordered (good : SymbolId → Prop) (b : QueueBook) : Prop := Tidy good b.orders b.out

theorem advance_ordered (ordered : b.Ordered good) (sym : SymbolId) (tNs : Nat) : (b.advance sym tNs).Ordered good := by
  unfold advance
  split
  · exact ordered
  · exact visit_tidy id (lapse_tidy sym tNs) (visit_tidy id (land_tidy sym tNs _ _ _) ordered)

theorem advanceVenue_ordered (ordered : b.Ordered good) (sym : SymbolId) (tNs : Nat) :
    (b.advanceVenue sym tNs).Ordered good := by
  unfold advanceVenue
  split
  · exact ordered
  have folded : ∀ (syms : List SymTouch) (b : QueueBook), b.Ordered good →
      (syms.foldl (advanceOther sym tNs) b).Ordered good := by
    intro syms
    induction syms with
    | nil => exact fun b ordered => ordered
    | cons s rest ih =>
      intro b ordered
      refine ih _ ?_
      unfold advanceOther
      split
      · exact advance_ordered ordered s.sym tNs
      · exact ordered
  exact folded b.syms b ordered

theorem joinTouch_sym (sym : SymbolId) (tb : Touch) (h : Held) : (joinTouch sym tb h).order.sym = h.order.sym := by
  unfold joinTouch
  dsimp only
  split <;> rfl

theorem onBook_ordered (ordered : b.Ordered good) (sym : SymbolId) (touch : Touch) (tNs : Nat) :
    (b.onBook sym touch tNs).Ordered good := by
  have learnt : ∀ {b : QueueBook} (c : Prop) [Decidable c], b.Ordered good →
      (if c then b.learn sym touch else b).Ordered good := by
    intro b c _ ordered
    split
    · exact ordered
    · exact ordered
  unfold onBook
  dsimp only
  have first := advanceVenue_ordered ordered sym tNs
  generalize b.advanceVenue sym tNs = b at first ⊢
  split
  · exact first
  have middle := advance_ordered (learnt (b.paritySim ∧ touch.twoSided) first) sym tNs
  generalize (if b.paritySim ∧ touch.twoSided then b.learn sym touch else b).advance sym tNs = b at middle ⊢
  have last := learnt (b.paritySim = false ∧ touch.twoSided) middle
  split
  · exact last
  split
  · exact last
  refine ⟨?_, last.ring⟩
  intro h member
  obtain ⟨k, listed, rfl⟩ := mem_map.mp member
  rw [joinTouch_sym]
  exact last.listed k listed

theorem onPrint_ordered (ordered : b.Ordered good) (sym : SymbolId) (px qty : Int) (sell : Bool) (tNs : Nat) :
    (b.onPrint sym px qty sell tNs).Ordered good := by
  unfold onPrint
  dsimp only
  have first := advanceVenue_ordered ordered sym tNs
  generalize b.advanceVenue sym tNs = b at first ⊢
  split
  · exact first
  have next := advance_ordered first sym tNs
  split
  · exact next
  · exact visit_tidy (s := (qty, (b.advance sym tNs).out)) Prod.snd (takes_tidy sym px _ tNs) next

theorem modify_each {α : Type} {P : α → Prop} {f : α → α} (keep : ∀ a, P a → P (f a)) {xs : List α} (all : ∀ a ∈ xs, P a)
    (i : Nat) : ∀ a ∈ xs.modify i f, P a := by
  induction xs generalizing i with
  | nil => simp
  | cons x rest ih =>
    have tail : ∀ a ∈ rest, P a := fun a member => all a (mem_cons_of_mem _ member)
    cases i with
    | zero =>
      rw [modify_zero_cons]
      intro a member
      rcases mem_cons.mp member with rfl | later
      · exact keep x (all x mem_cons_self)
      · exact tail a later
    | succ i =>
      rw [modify_succ_cons]
      intro a member
      rcases mem_cons.mp member with rfl | later
      · exact all _ mem_cons_self
      · exact ih tail i a later

section

variable (ordered : b.Ordered good)

include ordered

theorem schedule_ordered (i effectiveNs : Nat) (reason : EventReason) :
    (b.schedule i effectiveNs reason).Ordered good := by
  refine ⟨modify_each ?_ ordered.listed i, ordered.ring⟩
  intro h fine
  unfold Held.cancelBy
  split <;> exact fine

theorem refuse_ordered (why : QueueRefusal) : (b.refuse why).1.Ordered good := ⟨ordered.listed, ordered.ring⟩

theorem append_ordered {p : QueuePlace} (fine : good p.sym) : (b.append p).Ordered good := by
  refine ⟨?_, ordered.ring⟩
  intro h member
  rcases mem_append.mp member with before | here
  · exact ordered.listed h before
  · obtain rfl := mem_singleton.mp here
    exact fine

theorem track_ordered (sym : SymbolId) : (b.track sym).1.Ordered good := by
  unfold track
  split_ifs
  · exact ordered
  · exact ordered
  · exact ⟨ordered.listed, ordered.ring⟩

theorem place_ordered {p : QueuePlace} (fine : good p.sym) : (b.place p).1.Ordered good := by
  unfold place
  split
  · exact refuse_ordered ordered _
  split
  · exact refuse_ordered ordered _
  have tracked := track_ordered ordered p.sym
  split
  · exact refuse_ordered ordered _
  · rename_i answer
    rw [answer] at tracked
    exact append_ordered tracked fine

theorem cancel_ordered (clientOid slot effectiveNs : Nat) : (b.cancel clientOid slot effectiveNs).1.Ordered good := by
  unfold cancel
  split
  · exact ordered
  · exact schedule_ordered ordered _ _ _

theorem linkLast_ordered (prevOid : Nat) : (b.linkLast prevOid).Ordered good :=
  ⟨modify_each (P := fun h : Held => good h.order.sym) (f := fun h : Held => { h with link := prevOid })
    (fun _ fine => fine) ordered.listed _, ordered.ring⟩

theorem modify_ordered (prevOid : Nat) {new : QueuePlace} (fine : good new.sym) :
    (b.modify prevOid new).1.Ordered good := by
  unfold modify
  split
  · exact refuse_ordered ordered _
  split
  · exact ordered
  rename_i i _
  split
  · exact refuse_ordered ordered _
  dsimp only
  have placed := place_ordered (schedule_ordered ordered i new.readyNs .replaced)
    (p := { new with expiryNs := (b.orders[i]?).elim never fun h => h.order.expiryNs }) fine
  split
  · rename_i answer
    rw [answer] at placed
    exact placed
  · rename_i answer
    rw [answer] at placed
    exact linkLast_ordered placed prevOid

theorem drain_ordered : b.drain.1.Ordered good ∧ b.drain.2.length ≤ queueOutCap := by
  have shorter : ∀ (n : Nat) (r : RingBuffer Told),
      (r.drain queueOutCap n).2.len ≤ r.len ∧ (r.drain queueOutCap n).1.length ≤ n := by
    intro n
    induction n with
    | zero => exact fun r => ⟨Nat.le_refl _, Nat.le_refl _⟩
    | succ n ih =>
      intro r
      rw [RingBuffer.drain]
      split
      · exact ⟨Nat.le_refl _, Nat.zero_le _⟩
      rename_i e rest popped
      obtain ⟨len, count⟩ := ih rest
      refine ⟨len.trans ?_, Nat.succ_le_succ count⟩
      unfold RingBuffer.pop at popped
      split at popped
      · cases popped
      · cases popped
        exact Nat.sub_le _ _
  obtain ⟨len, count⟩ := shorter b.out.ring.len b.out.ring
  exact ⟨⟨ordered.listed, len.trans ordered.ring⟩, count.trans ordered.ring⟩

end

end QueueBook

end TradingEngine.Queue

namespace TradingEngine.Backtest

open Base CoreTypes Queue Paper

structure Quote where
  tActiveNs : Nat
  expiryNs : Nat
  sym : SymbolId
  side : Side
  kind : OrderKind
  px1e6 : Int
  remaining1e6 : Int
  clientOid : Nat
  strategyId : Nat
  deriving DecidableEq, Repr

def Quote.ofPending (p : Pending) : Quote :=
  ⟨p.tActiveNs, p.expiryNs, p.ident.sym, p.ident.side, p.ident.kind, p.px1e6, p.remaining1e6, p.clientOid,
    p.ident.strategyId⟩

def Quote.ofOpen (o : OpenOrder) : Quote :=
  ⟨o.tActiveNs, o.expiryNs, o.sym, o.side, o.kind, o.px1e6, o.remaining1e6, o.clientOid, o.strategyId⟩

structure Deal where
  sym : SymbolId
  clientOid : Nat
  side : Side
  px1e6 : Int
  qty1e6 : Int
  deriving DecidableEq, Repr

def Deal.ofFill (f : Fill) : Deal := ⟨f.sym, f.orderId, f.side, f.px, f.qty⟩

def Deal.ofSynth (f : SynthFill) : Deal := ⟨f.sym, f.clientOid, f.side, f.px1e6, f.qty1e6⟩

structure Alike (p : Pending) (o : OpenOrder) : Prop where
  quote : Quote.ofPending p = Quote.ofOpen o
  stamped : p.ident.venue = symbolVenueByte o.sym
  judged : p.modelVenue = symbolVenueByte o.sym
  routed : o.venue = modelVenueByte o.sym

abbrev SameTable : List Pending → List OpenOrder → Prop := List.Forall₂ Alike

theorem SameTable.quotes {ps : List Pending} {os : List OpenOrder} (same : SameTable ps os) :
    ps.map Quote.ofPending = os.map Quote.ofOpen := by
  induction same with
  | nil => rfl
  | cons alike _ ih => rw [List.map_cons, List.map_cons, alike.quote, ih]

/-- The fills that wait on the one side are those of the other, with room for more. -/
structure SameFills (more : Nat) (t : Tape) (out : List SynthFill) : Prop where
  deals : (t.out.contents fillOut).map Deal.ofFill = out.map Deal.ofSynth
  room : t.out.len + more ≤ fillOut
  inside : t.out.head < fillOut

namespace SameFills

variable {more : Nat} {t : Tape} {out : List SynthFill}

theorem fewer (same : SameFills more t out) {less : Nat} (le : less ≤ more) : SameFills less t out :=
  ⟨same.deals, by have := same.room; omega, same.inside⟩

theorem note (same : SameFills more t out) (uid : Nat) (marks : List Mark) : SameFills more (t.note uid marks) out :=
  ⟨same.deals, same.room, same.inside⟩

theorem push (same : SameFills (more + 1) t out) {sym : SymbolId} {side : Side} {clientOid strategyId : Nat} {px q : Int}
    {nowNs : Nat} {f : SynthFill} (deal : Deal.ofSynth f = ⟨sym, clientOid, side, px, q⟩) :
    SameFills more (t.pushFillOf sym side clientOid strategyId px q nowNs) (out ++ [f]) := by
  obtain ⟨deals, room, inside⟩ := same
  have space : t.out.len < fillOut := by omega
  unfold Tape.pushFillOf
  rw [if_neg (Nat.not_le.mpr space)]
  refine ⟨?_, ?_, inside⟩
  · rw [RingBuffer.push_contents space, List.map_append, List.map_append, deals, List.map_singleton, List.map_singleton,
      deal]
    rfl
  · change t.out.len + 1 + more ≤ fillOut
    omega

end SameFills

theorem Alike.fields {p : Pending} {o : OpenOrder} (alike : Alike p o) :
    p.tActiveNs = o.tActiveNs ∧ p.expiryNs = o.expiryNs ∧ p.ident.sym = o.sym ∧ p.ident.side = o.side ∧
      p.ident.kind = o.kind ∧ p.px1e6 = o.px1e6 ∧ p.remaining1e6 = o.remaining1e6 ∧ p.clientOid = o.clientOid ∧
      p.ident.strategyId = o.strategyId := by
  have quote := alike.quote
  simpa only [Quote.ofPending, Quote.ofOpen, Quote.mk.injEq] using quote

theorem Alike.filled {p : Pending} {o : OpenOrder} (alike : Alike p o) (left : Int) :
    Alike { p with remaining1e6 := left } { o with remaining1e6 := left } := by
  obtain ⟨active, expiry, sym, side, kind, px, _, clientOid, strategyId⟩ := alike.fields
  refine ⟨?_, alike.stamped, alike.judged, alike.routed⟩
  simp only [Quote.ofPending, Quote.ofOpen, active, expiry, sym, side, kind, px, clientOid, strategyId]

theorem expire_table (sym : SymbolId) (nowNs : Nat) {ps : List Pending} {os : List OpenOrder} (same : SameTable ps os)
    (t : Tape) : SameTable (visit (Matcher.expireVisit sym nowNs) [] ps t).1
      (os.filter fun o => !(o.sym = sym ∧ expiredAt nowNs o.expiryNs)) ∧
    (visit (Matcher.expireVisit sym nowNs) [] ps t).2.out = t.out := by
  have pass : ∀ done done', SameTable done done' → SameTable (visit (Matcher.expireVisit sym nowNs) done ps t).1
      (done' ++ os.filter fun o => !(o.sym = sym ∧ expiredAt nowNs o.expiryNs)) ∧
      (visit (Matcher.expireVisit sym nowNs) done ps t).2.out = t.out := by
    induction same generalizing t with
    | nil =>
      intro done done' before
      rw [List.filter_nil, List.append_nil]
      exact ⟨before, rfl⟩
    | cons alike _ ih =>
      rename_i p o ps os _
      intro done done' before
      obtain ⟨-, expiry, here, -⟩ := alike.fields
      rw [visit]
      by_cases due : o.sym = sym ∧ expiredAt nowNs o.expiryNs
      · have gone : Matcher.expireVisit sym nowNs done p ps t = (none, t.note p.uid [.ended (.expired nowNs)]) := by
          rw [Matcher.expireVisit, here, expiry, if_pos due]
        rw [gone, List.filter_cons_of_neg (by simpa using due)]
        obtain ⟨table, ring⟩ := ih (t.note p.uid [.ended (.expired nowNs)]) done done' before
        simp only [Option.toList_none, List.append_nil]
        exact ⟨table, ring⟩
      · have stays : Matcher.expireVisit sym nowNs done p ps t = (some p, t) := by
          rw [Matcher.expireVisit, here, expiry, if_neg due]
        rw [stays, List.filter_cons_of_pos (by rw [decide_eq_false due]; rfl)]
        have next := ih t (done ++ [p]) (done' ++ [o]) (List.rel_append before (.cons alike .nil))
        rw [List.append_assoc] at next
        exact next
  exact pass [] [] .nil

def NoPrediction (symClass : SymbolId → Option InstrumentClass) : Prop := ∀ sym, symClass sym ≠ some .prediction

theorem bookFill_plain {symClass : SymbolId → Option InstrumentClass} (plain : NoPrediction symClass)
    (s : Accounts × List SynthFill) (o : OpenOrder) (px q mark : Int) :
    (FillEngine.bookFill symClass s o px q mark).2 = s.2 ++ [⟨o.sym, o.side, px, q, o.oos, o.clientOid⟩] := by
  have all : FillEngine.allowed symClass s.1 o q = some q := by
    rw [FillEngine.allowed, if_neg]
    exact fun cut => plain o.sym cut.2
  rw [FillEngine.bookFill, all]

theorem Alike.pushFill {symClass : SymbolId → Option InstrumentClass} {p : Pending} {o : OpenOrder} (alike : Alike p o)
    (plain : NoPrediction symClass) {more nowNs : Nat} {mark : Int} {t : Tape} {s : Accounts × List SynthFill}
    (fills : SameFills (more + 1) t s.2) (px q : Int) :
    SameFills more (t.pushFill p px q nowNs) (FillEngine.bookFill symClass s o px q mark).2 := by
  obtain ⟨-, -, here, side, -, -, -, clientOid, -⟩ := alike.fields
  rw [bookFill_plain plain]
  refine (fills.push ?_).note _ _
  rw [Deal.ofSynth, here, side, clientOid]

section Cross

variable {symClass : SymbolId → Option InstrumentClass} {sym : SymbolId} {nowNs : Nat} {touch : Touch} {mark : Int}

def SameCross (more : Nat) (s : Budget × Tape) (e : Budget × Accounts × List SynthFill) : Prop :=
  s.1 = e.1 ∧ SameFills more s.2 e.2.2

theorem fillVisit_same (plain : NoPrediction symClass) (done : List Pending) (done' : List OpenOrder) (p : Pending)
    (o : OpenOrder) (rest : List Pending) (rest' : List OpenOrder) (s : Budget × Tape)
    (e : Budget × Accounts × List SynthFill) (alike : Alike p o) (same : SameCross (rest.length + 1) s e) :
    SameTable (Matcher.fillVisit sym nowNs touch done p rest s).1.toList
        (FillEngine.fillVisit symClass sym nowNs touch mark done' o rest' e).1.toList ∧
      SameCross rest.length (Matcher.fillVisit sym nowNs touch done p rest s).2
        (FillEngine.fillVisit symClass sym nowNs touch mark done' o rest' e).2 := by
  obtain ⟨budget, fills⟩ := same
  have pushed : ∀ price q, SameFills rest.length (s.2.pushFill p price q nowNs)
      (FillEngine.bookFill symClass e.2 o price q mark).2 := fun price q => alike.pushFill plain fills price q
  obtain ⟨_, _, _, _, _, _, ⟨_, _, _, _, _⟩, _, _⟩ := p
  obtain ⟨_, _, _, _, _, _, _, _, _, _, _, _⟩ := o
  obtain ⟨rfl, rfl, rfl, rfl, rfl, rfl, rfl, rfl, rfl⟩ := alike.fields
  have fewer := fills.fewer (Nat.le_succ rest.length)
  unfold Matcher.fillVisit FillEngine.fillVisit
  rw [budget]
  dsimp only
  split
  · exact ⟨.cons alike .nil, budget, fewer⟩
  split
  · generalize judgeIoc _ _ _ touch e.1 = judged
    obtain ⟨verdict, b⟩ := judged
    cases verdict with
    | fill price q => exact ⟨.nil, rfl, (pushed price q).note _ _⟩
    | _ => exact ⟨.nil, rfl, fewer.note _ _⟩
  · generalize judgeMaker _ _ _ touch e.1 = judged
    obtain ⟨verdict, b⟩ := judged
    cases verdict with
    | fill price q =>
      dsimp only
      split
      · exact ⟨.cons (alike.filled _) .nil, rfl, pushed price q⟩
      · exact ⟨.nil, rfl, (pushed price q).note _ _⟩
    | _ => exact ⟨.cons alike .nil, rfl, fewer⟩

end Cross

end TradingEngine.Backtest
