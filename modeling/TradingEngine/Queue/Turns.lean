import TradingEngine.Queue.Book

/-!
# What a record can do to an order

One relation gains everything that can happen to one order of the table in one record: it stays, is rejected, comes to
rest, is cancelled, or is filled in part or in whole.
-/

namespace TradingEngine.Queue

open Base CoreTypes List QueueBook

variable {orders : List Held} {sym : SymbolId}

def Held.withAhead (h : Held) (ahead : Int) : Held := { h with order := { h.order with ahead1e6 := ahead } }

def Held.rested (h : Held) (ahead : Int) : Held :=
  { h with order := { h.order with ahead1e6 := ahead, state := .resting } }

def Held.filledBy (h : Held) (ahead fill : Int) : Held :=
  { h with order := { h.order with ahead1e6 := ahead, remaining1e6 := h.order.remaining1e6 - fill } }

def Landed (tNs : Nat) (sym : SymbolId) (h : Held) : Prop :=
  h.order.sym = sym → ¬ (h.order.state = .pending ∧ h.order.readyNs ≤ tNs)

/-- What a record at a venue may do with one entry of the table, and what it tells. Whatever stands before an
entry that comes to rest has landed. -/
inductive Turn (venue tNs : Nat) (table : List Held) (h : Held) : Option Held → List Told → Prop where
  | stay (ahead : Int) : Turn venue tNs table h (some (h.withAhead ahead)) []
  | reject (reason : EventReason) (pending : h.order.state = .pending) (ready : h.order.readyNs ≤ tNs) :
      Turn venue tNs table h none [h.tells tNs .rejected reason 0]
  | rest (ahead : Int) (pending : h.order.state = .pending) (ready : h.order.readyNs ≤ tNs)
      (replaces : h.link ≠ 0 → (find table h.link h.order.slot).isOk = true)
      (here : symbolVenueByte h.order.sym = venue)
      (settled : ∃ done rest, table = done ++ h :: rest ∧ ∀ k ∈ done, Landed tNs h.order.sym k) :
      Turn venue tNs table h (some (h.rested ahead)) [h.tells tNs .resting .none 0]
  | cancel (resting : h.order.state = .resting) (due : h.order.cancelNs ≤ tNs) :
      Turn venue tNs table h none [h.tells tNs .canceled h.order.cancelReason 0]
  | part (ahead fill : Int) (resting : h.order.state = .resting) (early : tNs < h.order.cancelNs)
      (positive : 0 < fill) (less : fill < h.order.remaining1e6) :
      Turn venue tNs table h (some (h.filledBy ahead fill)) [h.tells tNs .fill .none fill]
  | whole (resting : h.order.state = .resting) (early : tNs < h.order.cancelNs) (positive : 0 < h.order.remaining1e6) :
      Turn venue tNs table h none [h.tells tNs .fill .none h.order.remaining1e6, h.tells tNs .filled .none 0]

/-- Turns one after the other, and all they told. -/
inductive Turned (venue tNs : Nat) (start : List Held) : List Held → List Told → Prop where
  | start : Turned venue tNs start start []
  | turn {pre post : List Held} {h : Held} {o : Option Held} {told new : List Told} :
      Turned venue tNs start (pre ++ h :: post) told → Turn venue tNs (pre ++ h :: post) h o new →
      Turned venue tNs start (pre ++ o.toList ++ post) (told ++ new)

theorem mem_turn {pre post : List Held} {o : Option Held} {k : Held} (h : Held)
    (member : k ∈ pre ++ o.toList ++ post) : (k ∈ pre ++ post ∧ k ∈ pre ++ h :: post) ∨ o = some k := by
  rw [append_assoc, mem_append, mem_append, Option.mem_toList] at member
  rcases member with before | here | after
  · exact .inl ⟨mem_append_left _ before, mem_append_left _ before⟩
  · exact .inr here
  · exact .inl ⟨mem_append_right _ after, mem_append_right _ (mem_cons_of_mem _ after)⟩

theorem mem_swapped {pre post : List Held} {g k : Held} (h : Held) (member : k ∈ pre ++ g :: post) :
    k = g ∨ k ∈ pre ++ h :: post := by
  simp only [mem_append, mem_cons] at member ⊢
  tauto

section Turned

variable {venue tNs : Nat} {a b c : List Held} {told more : List Told}

theorem Turned.trans (first : Turned venue tNs a b told) (second : Turned venue tNs b c more) :
    Turned venue tNs a c (told ++ more) := by
  induction second with
  | start => rwa [append_nil]
  | turn _ last ih =>
    rw [← append_assoc]
    exact ih.turn last

theorem Turned.keeps {I : List Held → List Told → Prop} (turned : Turned venue tNs a b more)
    (keep : ∀ {pre post h o told new}, I (pre ++ h :: post) told → Turn venue tNs (pre ++ h :: post) h o new →
      I (pre ++ o.toList ++ post) (told ++ new)) (start : I a told) : I b (told ++ more) := by
  induction turned with
  | start => rwa [append_nil]
  | turn _ last ih =>
    rw [← append_assoc]
    exact keep ih last

theorem Turned.map {f : Held → Held} (stays : ∀ h, ∃ ahead, f h = h.withAhead ahead) (done rest : List Held) :
    Turned venue tNs (done ++ rest) (done ++ rest.map f) [] := by
  induction rest generalizing done with
  | nil => exact .start
  | cons h rest ih =>
    obtain ⟨ahead, same⟩ := stays h
    have first : Turned venue tNs (done ++ h :: rest) (done ++ [f h] ++ rest) [] := by
      rw [same]
      exact Turned.start.turn (.stay ahead)
    have others := ih (done ++ [f h])
    rw [append_assoc done [f h] (rest.map f)] at others
    exact first.trans others

end Turned

/-! ### Room in the ring -/

/-- What an order can still tell in one call. -/
def Held.weight (h : Held) : Nat := if h.order.state = .pending then 3 else 2

def burden (orders : List Held) : Nat := (orders.map Held.weight).sum

theorem two_le_weight (h : Held) : 2 ≤ h.weight := by
  unfold Held.weight
  split <;> decide

theorem burden_append (a b : List Held) : burden (a ++ b) = burden a + burden b := by
  simp [burden]

theorem burden_cons (h : Held) (rest : List Held) : burden (h :: rest) = h.weight + burden rest := by
  simp [burden]

theorem burden_le (orders : List Held) : burden orders ≤ 3 * orders.length := by
  induction orders with
  | nil => exact Nat.le_refl 0
  | cons h rest ih =>
    have each : h.weight ≤ 3 := by
      unfold Held.weight
      split <;> decide
    rw [burden_cons, length_cons]
    omega

/-- The outbox has taken in every one of these events. -/
structure Outbox.Gains (out : Outbox) (new : List Told) (after : Outbox) : Prop where
  contents : after.ring.contents queueOutCap = out.ring.contents queueOutCap ++ new
  head : after.ring.head = out.ring.head
  overflow : after.counters.outOverflow = out.counters.outOverflow

namespace Outbox.Gains

variable {out mid after : Outbox} {new more : List Told}

theorem nothing (out : Outbox) : out.Gains [] out := ⟨(append_nil _).symm, rfl, rfl⟩

theorem trans (first : out.Gains new mid) (second : mid.Gains more after) : out.Gains (new ++ more) after :=
  ⟨by rw [second.contents, first.contents, append_assoc], second.head.trans first.head,
    second.overflow.trans first.overflow⟩

theorem len (gains : out.Gains new after) : after.ring.len = out.ring.len + new.length := by
  have lengths := congrArg length gains.contents
  rwa [length_append, RingBuffer.contents_length, RingBuffer.contents_length] at lengths

theorem emit (room : out.ring.len < queueOutCap) (tNs : Nat) (h : Held) (kind : EventKind) (reason : EventReason)
    (qty : Int) : out.Gains [h.tells tNs kind reason qty] (out.emit tNs h kind reason qty) := by
  unfold Outbox.emit
  rw [if_neg (Nat.not_le.mpr room)]
  exact ⟨RingBuffer.push_contents room _, rfl, rfl⟩

theorem counted (gains : out.Gains new mid) (ring : after.ring = mid.ring)
    (overflow : after.counters.outOverflow = mid.counters.outOverflow) : out.Gains new after :=
  ⟨by rw [ring]; exact gains.contents, by rw [ring]; exact gains.head, overflow.trans gains.overflow⟩

end Outbox.Gains

/-! ### The loops -/

def Due (tNs : Nat) (o : QueueOrder) : Prop :=
  o.state = .pending ∧ o.readyNs ≤ tNs ∨ o.state = .resting ∧ o.cancelNs ≤ tNs

/-- A visit that is a turn and leaves the ring with room for the rest of the table, where the entries
visited before are good; the one it leaves is good too. -/
def Turns (venue tNs : Nat) (good : Held → Prop)
    (f : List Held → Held → List Held → Outbox → Option Held × Outbox) : Prop :=
  ∀ done h rest out, (∀ k ∈ done, good k) → out.ring.len + h.weight ≤ queueOutCap →
    ∃ new, Turn venue tNs (done ++ h :: rest) h (f done h rest out).1 new ∧ out.Gains new (f done h rest out).2 ∧
      new.length + burden (f done h rest out).1.toList ≤ h.weight ∧ ∀ k ∈ (f done h rest out).1, good k

theorem visit_turned {venue tNs : Nat} {good : Held → Prop}
    {f : List Held → Held → List Held → Outbox → Option Held × Outbox} (turns : Turns venue tNs good f)
    {out : Outbox} (room : burden orders + out.ring.len ≤ queueOutCap) :
    ∃ new, Turned venue tNs orders (visit f [] orders out).1 new ∧ out.Gains new (visit f [] orders out).2 ∧
      burden (visit f [] orders out).1 + (visit f [] orders out).2.ring.len ≤ queueOutCap ∧
      ∀ h ∈ (visit f [] orders out).1, good h := by
  have pass := visit_rule (f := f) (P := fun done rest s => ∃ new, Turned venue tNs orders (done ++ rest) new ∧
    out.Gains new s ∧ burden (done ++ rest) + s.ring.len ≤ queueOutCap ∧ ∀ h ∈ done, good h)
  simp only [append_nil] at pass
  refine pass (fun done h rest s ⟨told, turned, gains, room, all⟩ => ?_)
    ⟨[], .start, .nothing out, room, fun h member => absurd member not_mem_nil⟩
  rw [burden_append, burden_cons] at room
  obtain ⟨new, turn, tells, cost, left⟩ := turns done h rest s all (by omega)
  refine ⟨told ++ new, turned.turn turn, gains.trans tells, ?_, fun k member => ?_⟩
  · rw [burden_append, burden_append, tells.len]
    omega
  · rcases mem_append.mp member with earlier | here
    · exact all k earlier
    · exact left k (Option.mem_toList.mp here)

theorem land_turns (sym : SymbolId) (tNs : Nat) (known : Bool) (tb : Touch) (parity : Bool) :
    Turns (symbolVenueByte sym) tNs (Landed tNs sym) (land sym tNs known tb parity) := by
  intro done h rest out landed room
  have positive := two_le_weight h
  have space : out.ring.len < queueOutCap := by omega
  have emits := Outbox.Gains.emit space tNs h
  unfold land
  dsimp only
  split
  · rename_i idle
    refine ⟨[], .stay h.order.ahead1e6, .nothing out, by simp [burden], fun k left own pending => ?_⟩
    obtain rfl := Option.some.inj left
    rcases idle with other | landed | later
    · exact other own
    · exact landed pending.1
    · omega
  · rename_i due
    push Not at due
    obtain ⟨own, pending, ready⟩ := due
    have three : h.weight = 3 := if_pos pending
    split
    · exact ⟨_, .reject .other pending ready, (emits .rejected .other 0).counted rfl rfl, by simp [burden, three],
        fun k left => nomatch left⟩
    rename_i linked
    split
    · exact ⟨_, .reject .badAloPx pending ready, (emits .rejected .badAloPx 0).counted rfl rfl,
        by simp [burden, three], fun k left => nomatch left⟩
    split
    · exact ⟨_, .reject .other pending ready, (emits .rejected .other 0).counted rfl rfl,
        by simp [burden, three], fun k left => nomatch left⟩
    refine ⟨_, .rest _ pending ready (fun link => ?_) (congrArg symbolVenueByte own) ⟨done, rest, rfl, ?_⟩,
      (emits .resting .none 0).counted rfl rfl, ?_, fun k left _ pending => ?_⟩
    · by_contra missing
      exact linked ⟨link, by simpa using missing⟩
    · rw [own]
      exact landed
    · simp [burden, Held.weight, pending]
    · obtain rfl := Option.some.inj left
      exact nomatch pending.1

theorem lapse_turns (venue : Nat) (sym : SymbolId) (tNs : Nat) : Turns venue tNs (fun _ => True) (lapse sym tNs) := by
  intro done h rest out _ room
  have positive := two_le_weight h
  unfold lapse
  dsimp only
  split
  · rename_i due
    obtain ⟨_, resting, cancel⟩ := due
    have space : out.ring.len < queueOutCap := by omega
    have emits := Outbox.Gains.emit space tNs h
    refine ⟨_, .cancel resting cancel, (emits .canceled _ 0).counted rfl rfl, ?_, fun _ _ => trivial⟩
    have two : h.weight = 2 := if_neg (by rw [resting]; decide)
    simp [burden, two]
  · exact ⟨[], .stay h.order.ahead1e6, .nothing out, by simp [burden], fun _ _ => trivial⟩

theorem meets_fill_le (o : QueueOrder) (px left : Int) (positive : 0 < o.remaining1e6) :
    (o.meets px left).2.1 ≤ o.remaining1e6 := by
  unfold QueueOrder.meets
  dsimp only
  split
  · exact Int.le_refl _
  split
  · dsimp only
    split <;> omega
  · exact positive.le

theorem takes_turn (px : Int) (hit : Side) {venue tNs : Nat} (done rest : List Held) {h : Held}
    {s : Int × Outbox} (room : s.2.ring.len + 2 ≤ queueOutCap) (positive : 0 < h.order.remaining1e6)
    (early : h.order.sym = sym → ¬ Due tNs h.order) :
    ∃ new, Turn venue tNs (done ++ h :: rest) h (takes sym px hit tNs done h rest s).1 new ∧
      s.2.Gains new (takes sym px hit tNs done h rest s).2.2 ∧ new.length ≤ 2 := by
  have space : s.2.ring.len < queueOutCap := by omega
  have emits := Outbox.Gains.emit space tNs h
  have most := meets_fill_le h.order px s.1 positive
  unfold takes
  dsimp only
  split
  · exact ⟨[], .stay h.order.ahead1e6, .nothing _, by decide⟩
  rename_i mine
  push Not at mine
  obtain ⟨own, resting, _⟩ := mine
  have before : tNs < h.order.cancelNs := by
    by_contra late
    exact early own (.inr ⟨resting, by omega⟩)
  split
  · exact ⟨[], .stay _, .nothing _, by decide⟩
  rename_i fills
  split
  · exact ⟨_, .part _ _ resting before (by omega) (by omega), (emits .fill .none _).counted rfl rfl, by simp⟩
  rename_i nothing
  have all : (h.order.meets px s.1).2.1 = h.order.remaining1e6 := by omega
  rw [all]
  have first : s.2.Gains [h.tells tNs .fill .none h.order.remaining1e6]
      ((s.2.emit tNs h .fill .none h.order.remaining1e6).count fun c =>
        { c with fills := wrapping c.fills }) := (emits .fill .none _).counted rfl rfl
  have second := Outbox.Gains.emit (by rw [first.len, length_singleton]; omega) tNs h .filled .none 0
  exact ⟨_, .whole resting before positive, (first.trans second).counted rfl rfl, by simp⟩

/-! ### What turns leave -/

/-- All but the queue, the remainder and the landing is as it was. -/
structure Held.Stems (h k : Held) : Prop where
  uid : k.uid = h.uid
  link : k.link = h.link
  clientOid : k.order.clientOid = h.order.clientOid
  px : k.order.px1e6 = h.order.px1e6
  sym : k.order.sym = h.order.sym
  slot : k.order.slot = h.order.slot
  ready : k.order.readyNs = h.order.readyNs
  cancel : k.order.cancelNs = h.order.cancelNs

section Leaves

variable {venue tNs : Nat} {table : List Held} {h k : Held} {o : Option Held} {new : List Told}

theorem Turn.stems (turn : Turn venue tNs table h (some k) new) : h.Stems k := by
  cases turn <;> exact ⟨rfl, rfl, rfl, rfl, rfl, rfl, rfl, rfl⟩

theorem Turn.uids (turn : Turn venue tNs table h o new) : ∀ x ∈ new, x.uid = h.uid := by
  cases turn <;> simp [Held.tells]

theorem Turn.due (turn : Turn venue tNs table h (some k) new) (due : Due tNs k.order) : Due tNs h.order := by
  cases turn with
  | stay ahead => exact due
  | rest ahead pending ready replaces here settled => exact .inl ⟨pending, ready⟩
  | part ahead fill resting early positive less => exact due

theorem Turn.positive (turn : Turn venue tNs table h (some k) new) (positive : 0 < h.order.remaining1e6) :
    0 < k.order.remaining1e6 := by
  cases turn with
  | stay ahead => exact positive
  | rest ahead pending ready replaces here settled => exact positive
  | part ahead fill resting early some less => exact Int.sub_pos_of_lt less

theorem Turned.each {P : Held → Prop} {a b : List Held} (turned : Turned venue tNs a b new)
    (pass : ∀ {table h k new}, Turn venue tNs table h (some k) new → P h → P k)
    (start : ∀ h ∈ a, P h) : ∀ h ∈ b, P h := by
  induction turned with
  | start => exact start
  | turn _ last ih =>
    intro k member
    rename_i pre post h o told more _
    rcases mem_turn h member with ⟨_, other⟩ | here
    · exact ih k other
    · rw [here] at last
      exact pass last (ih h (mem_append_right _ mem_cons_self))

def Clear (tNs : Nat) (sym : SymbolId) (table : List Held) : Prop :=
  ∀ h ∈ table, h.order.sym = sym → ¬ Due tNs h.order

theorem Turned.clear {a b : List Held} (turned : Turned venue tNs a b new) (clear : Clear tNs sym a) :
    Clear tNs sym b := by
  refine turned.each (fun turn quiet own => ?_) clear
  have stems := turn.stems
  rw [stems.sym] at own
  exact fun due => quiet own (turn.due due)

theorem Turned.positive {a b : List Held} (turned : Turned venue tNs a b new)
    (positive : ∀ h ∈ a, 0 < h.order.remaining1e6) : ∀ h ∈ b, 0 < h.order.remaining1e6 :=
  turned.each (fun turn => turn.positive) positive

theorem Turned.length {a b : List Held} (turned : Turned venue tNs a b new) : b.length ≤ a.length := by
  induction turned with
  | start => exact Nat.le_refl _
  | turn _ last ih =>
    rename_i pre post h o told more _
    have one : o.toList.length ≤ 1 := by cases o <;> simp
    simp only [length_append, length_cons] at ih ⊢
    omega

end Leaves

/-! ### Records -/

theorem lapsed_clear {tNs : Nat} {out : Outbox}
    (landed : ∀ h ∈ orders, Landed tNs sym h) : Clear tNs sym (visit (lapse sym tNs) [] orders out).1 := by
  have pass := visit_rule (f := lapse sym tNs) (P := fun done rest _ => Clear tNs sym done ∧ ∀ h ∈ rest, Landed tNs sym h)
  refine (pass (fun done h rest out ⟨clear, waits⟩ => ⟨fun k member own => ?_, fun k member => ?_⟩)
    ⟨fun h member => absurd member not_mem_nil, landed⟩).1
  · rcases mem_append.mp member with earlier | here
    · exact clear k earlier own
    unfold lapse at here
    dsimp only at here
    split at here
    · simp at here
    rename_i kept
    obtain rfl : k = h := by simpa using here
    rintro (pending | cancel)
    · exact waits k mem_cons_self own pending
    · exact kept ⟨own, cancel⟩
  · exact waits k (mem_cons_of_mem _ member)

structure Moved (venue tNs : Nat) (b c : QueueBook) (new : List Told) : Prop where
  turned : Turned venue tNs b.orders c.orders new
  gains : b.out.Gains new c.out
  filed : c.filed = b.filed
  parity : c.paritySim = b.paritySim
  syms : c.syms.map SymTouch.sym = b.syms.map SymTouch.sym

def Room (b : QueueBook) : Prop := burden b.orders + b.out.ring.len ≤ queueOutCap

section Moved

variable {venue tNs : Nat} {b c d : QueueBook} {new more : List Told}

theorem Moved.nothing (venue tNs : Nat) (b : QueueBook) : Moved venue tNs b b [] := ⟨.start, .nothing b.out, rfl, rfl, rfl⟩

theorem Moved.trans (first : Moved venue tNs b c new) (second : Moved venue tNs c d more) : Moved venue tNs b d (new ++ more) :=
  ⟨first.turned.trans second.turned, first.gains.trans second.gains, second.filed.trans first.filed,
    second.parity.trans first.parity, second.syms.trans first.syms⟩

theorem symTouch_some (tracked : sym ∈ b.syms.map SymTouch.sym) : ∃ s, b.symTouch sym = some s := by
  obtain ⟨s, member, rfl⟩ := mem_map.mp tracked
  cases found : b.symTouch s.sym with
  | some s => exact ⟨s, rfl⟩
  | none =>
    have missing := find?_eq_none.mp found s member
    simp at missing

theorem advance_syms (sym : SymbolId) (tNs : Nat) : (b.advance sym tNs).syms = b.syms := by
  unfold advance
  split <;> rfl

theorem advance_moved (sym : SymbolId) (tNs : Nat) (room : Room b) :
    ∃ new, Moved (symbolVenueByte sym) tNs b (b.advance sym tNs) new ∧ Room (b.advance sym tNs) ∧
      (sym ∈ b.syms.map SymTouch.sym → Clear tNs sym (b.advance sym tNs).orders) := by
  unfold advance
  cases found : b.symTouch sym with
  | none =>
    refine ⟨[], .nothing _ tNs b, room, fun tracked => ?_⟩
    obtain ⟨s, there⟩ := symTouch_some tracked
    rw [found] at there
    exact nomatch there
  | some s =>
    dsimp only
    obtain ⟨first, landed, gains, room, all⟩ := visit_turned (land_turns sym tNs s.known s.touch b.paritySim) room
    obtain ⟨second, lapsed, gains', room, _⟩ := visit_turned (lapse_turns (symbolVenueByte sym) sym tNs) room
    exact ⟨first ++ second, ⟨landed.trans lapsed, gains.trans gains', rfl, rfl, rfl⟩, room, fun _ => lapsed_clear all⟩

theorem advanceVenue_moved (sym : SymbolId) (tNs : Nat) (law : b.paritySim = false) (room : Room b) :
    ∃ new, Moved (symbolVenueByte sym) tNs b (b.advanceVenue sym tNs) new ∧ Room (b.advanceVenue sym tNs) ∧
      (b.advanceVenue sym tNs).syms = b.syms ∧
      ∀ other ∈ b.syms.map SymTouch.sym, other ≠ sym → symbolVenueByte other = symbolVenueByte sym →
        Clear tNs other (b.advanceVenue sym tNs).orders := by
  have pass : ∀ (todo : List SymTouch) (c : QueueBook), Room c → (∀ s ∈ todo, s.sym ∈ c.syms.map SymTouch.sym) →
      ∃ new, Moved (symbolVenueByte sym) tNs c (todo.foldl (advanceOther sym tNs) c) new ∧
        Room (todo.foldl (advanceOther sym tNs) c) ∧ (todo.foldl (advanceOther sym tNs) c).syms = c.syms ∧
        ∀ s ∈ todo, s.sym ≠ sym → symbolVenueByte s.sym = symbolVenueByte sym →
          Clear tNs s.sym (todo.foldl (advanceOther sym tNs) c).orders := by
    intro todo
    induction todo with
    | nil => exact fun c room _ => ⟨[], .nothing _ tNs c, room, rfl, fun s member => absurd member not_mem_nil⟩
    | cons s todo ih =>
      intro c room tracked
      rw [foldl_cons]
      unfold advanceOther
      split
      · rename_i block
        obtain ⟨new, moved, room, clear⟩ := advance_moved s.sym tNs room
        rw [block.2] at moved
        have syms := advance_syms (b := c) s.sym tNs
        obtain ⟨more, moved', room, syms', clears⟩ := ih (c.advance s.sym tNs) room (by
          rw [syms]
          exact fun s member => tracked s (mem_cons_of_mem _ member))
        refine ⟨new ++ more, moved.trans moved', room, syms'.trans syms, fun k member other same => ?_⟩
        rcases mem_cons.mp member with rfl | later
        · exact moved'.turned.clear (clear (tracked k mem_cons_self))
        · exact clears k later other same
      · rename_i skipped
        obtain ⟨more, moved', room, syms', clears⟩ := ih c room fun s member => tracked s (mem_cons_of_mem _ member)
        refine ⟨more, moved', room, syms', fun k member other same => ?_⟩
        rcases mem_cons.mp member with rfl | later
        · exact absurd ⟨other, same⟩ skipped
        · exact clears k later other same
  unfold advanceVenue
  split
  · rename_i idle
    rw [law] at idle
    have empty : b.orders = [] := eq_nil_of_length_eq_zero (idle.resolve_left (by decide))
    refine ⟨[], .nothing _ tNs b, room, rfl, fun _ _ _ _ h member => ?_⟩
    rw [empty] at member
    exact absurd member not_mem_nil
  · obtain ⟨new, moved, room, syms, clears⟩ := pass b.syms b room fun s member => mem_map_of_mem member
    refine ⟨new, moved, room, syms, fun other tracked ne same => ?_⟩
    obtain ⟨s, member, rfl⟩ := mem_map.mp tracked
    exact clears s member ne same

theorem printed_turned {px qty : Int} {hit : Side} {out : Outbox}
    (room : burden orders + out.ring.len ≤ queueOutCap) (positive : ∀ h ∈ orders, 0 < h.order.remaining1e6)
    (clear : Clear tNs sym orders) :
    ∃ new, Turned venue tNs orders (visit (takes sym px hit tNs) [] orders (qty, out)).1 new ∧
      out.Gains new (visit (takes sym px hit tNs) [] orders (qty, out)).2.2 := by
  -- an order that was visited tells nothing more, so only the rest of the table needs room
  have pass := visit_rule (f := takes sym px hit tNs) (P := fun done rest s => (∃ new,
    Turned venue tNs orders (done ++ rest) new ∧ out.Gains new s.2) ∧ burden rest + s.2.ring.len ≤ queueOutCap ∧
    (∀ h ∈ rest, 0 < h.order.remaining1e6) ∧ Clear tNs sym rest)
  simp only [append_nil] at pass
  refine (pass (fun done h rest s ⟨⟨told, turned, gains⟩, room, positive, clear⟩ => ?_)
    ⟨⟨[], .start, .nothing out⟩, room, positive, clear⟩).1
  rw [burden_cons] at room
  have weight := two_le_weight h
  obtain ⟨new, turn, tells, few⟩ := takes_turn (s := s) px hit done rest (by omega)
    (positive h mem_cons_self) (clear h mem_cons_self)
  refine ⟨⟨told ++ new, turned.turn turn, gains.trans tells⟩, ?_, fun k member => ?_, fun k member => ?_⟩
  · rw [tells.len]
    omega
  · exact positive k (mem_cons_of_mem _ member)
  · exact clear k (mem_cons_of_mem _ member)

theorem learnIn_syms (sym : SymbolId) (touch : Touch) (syms : List SymTouch) :
    (QueueBook.learnIn sym touch syms).map SymTouch.sym = syms.map SymTouch.sym := by
  induction syms with
  | nil => rfl
  | cons s rest ih =>
    rw [learnIn]
    split
    · rfl
    · rw [map_cons, map_cons, ih]

theorem learn_moved (sym : SymbolId) (touch : Touch) : Moved venue tNs b (b.learn sym touch) [] :=
  ⟨.start, .nothing b.out, rfl, rfl, learnIn_syms sym touch b.syms⟩

/-- Every tracked symbol of the record's venue is cleared. -/
def VenueClear (tNs : Nat) (sym : SymbolId) (b : QueueBook) : Prop :=
  ∀ other ∈ b.syms.map SymTouch.sym, symbolVenueByte other = symbolVenueByte sym → Clear tNs other b.orders

theorem VenueClear.moved (clear : VenueClear tNs sym b) (moved : Moved venue tNs b c new) : VenueClear tNs sym c := by
  intro other tracked same
  rw [moved.syms] at tracked
  exact moved.turned.clear (clear other tracked same)

theorem block_moved (sym : SymbolId) (tNs : Nat) (law : b.paritySim = false) (room : Room b) :
    ∃ new, Moved (symbolVenueByte sym) tNs b ((b.advanceVenue sym tNs).advance sym tNs) new ∧
      Room ((b.advanceVenue sym tNs).advance sym tNs) ∧ VenueClear tNs sym ((b.advanceVenue sym tNs).advance sym tNs) := by
  obtain ⟨new, moved, room, syms, others⟩ := advanceVenue_moved sym tNs law room
  obtain ⟨more, moved', room, own⟩ := advance_moved sym tNs room
  refine ⟨new ++ more, moved.trans moved', room, fun other tracked same => ?_⟩
  rw [advance_syms] at tracked
  rcases eq_or_ne other sym with rfl | ne
  · exact own tracked
  · rw [syms] at tracked
    exact moved'.turned.clear (others other tracked ne same)

theorem advance_untracked (missing : b.symTouch sym = none) : b.advance sym tNs = b := by
  unfold advance
  rw [missing]

theorem onBook_moved (sym : SymbolId) (touch : Touch) (tNs : Nat) (law : b.paritySim = false) (room : Room b) :
    ∃ new, Moved (symbolVenueByte sym) tNs b (b.onBook sym touch tNs) new ∧ VenueClear tNs sym (b.onBook sym touch tNs) := by
  obtain ⟨new, moved, _, clear⟩ := block_moved sym tNs law room
  unfold onBook
  dsimp only
  have parity : (b.advanceVenue sym tNs).paritySim = false := by
    obtain ⟨_, venue, _⟩ := advanceVenue_moved sym tNs law room
    exact venue.parity.trans law
  cases found : (b.advanceVenue sym tNs).symTouch sym with
  | none =>
    rw [advance_untracked found] at moved clear
    exact ⟨new, moved, clear⟩
  | some s =>
    have own : (if (b.advanceVenue sym tNs).paritySim = true ∧ touch.twoSided = true then
        (b.advanceVenue sym tNs).learn sym touch else b.advanceVenue sym tNs) = b.advanceVenue sym tNs := by
      rw [if_neg (by rw [parity]; simp)]
    dsimp only
    rw [own]
    generalize (b.advanceVenue sym tNs).advance sym tNs = c at moved clear ⊢
    have learnt : Moved (symbolVenueByte sym) tNs c (if c.paritySim = false ∧ touch.twoSided = true then c.learn sym touch else c) [] := by
      split
      · exact learn_moved sym touch
      · exact .nothing _ tNs c
    generalize (if c.paritySim = false ∧ touch.twoSided = true then c.learn sym touch else c) = d at learnt ⊢
    have joined : ∀ tb : Touch, Moved (symbolVenueByte sym) tNs d { d with orders := d.orders.map (joinTouch sym tb) } [] := by
      intro tb
      refine ⟨?_, .nothing d.out, rfl, rfl, rfl⟩
      refine Turned.map (fun h => ?_) [] d.orders
      unfold joinTouch
      dsimp only
      split
      · exact ⟨_, rfl⟩
      · exact ⟨h.order.ahead1e6, rfl⟩
    have known := moved.trans learnt
    rw [append_nil] at known
    cases d.symTouch sym with
    | none => exact ⟨new, known, clear.moved learnt⟩
    | some s =>
      dsimp only
      split
      · exact ⟨new, known, clear.moved learnt⟩
      · have last := known.trans (joined s.touch)
        rw [append_nil] at last
        exact ⟨new, last, (clear.moved learnt).moved (joined s.touch)⟩

theorem onPrint_moved (sym : SymbolId) (px qty : Int) (sell : Bool) (tNs : Nat) (law : b.paritySim = false)
    (room : Room b) (positive : ∀ h ∈ b.orders, 0 < h.order.remaining1e6) :
    ∃ new, Moved (symbolVenueByte sym) tNs b (b.onPrint sym px qty sell tNs) new ∧ VenueClear tNs sym (b.onPrint sym px qty sell tNs) := by
  obtain ⟨new, moved, room, clear⟩ := block_moved sym tNs law room
  unfold onPrint
  dsimp only
  cases found : (b.advanceVenue sym tNs).symTouch sym with
  | none =>
    rw [advance_untracked found] at moved clear
    exact ⟨new, moved, clear⟩
  | some s =>
    have tracked : sym ∈ ((b.advanceVenue sym tNs).advance sym tNs).syms.map SymTouch.sym := by
      have named : s.sym = sym := by simpa using find?_some found
      rw [advance_syms]
      exact mem_map.mpr ⟨s, mem_of_find?_eq_some found, named⟩
    dsimp only
    generalize (b.advanceVenue sym tNs).advance sym tNs = c at moved room clear tracked ⊢
    split
    · exact ⟨new, moved, clear⟩
    obtain ⟨more, turned, gains⟩ := printed_turned room (moved.turned.positive positive) (clear sym tracked rfl)
    have printed : Moved (symbolVenueByte sym) tNs c { c with
        orders := (visit (takes sym px (if sell then Side.bid else Side.ask) tNs) [] c.orders (qty, c.out)).1
        out := (visit (takes sym px (if sell then Side.bid else Side.ask) tNs) [] c.orders (qty, c.out)).2.2 }
        more := ⟨turned, gains, rfl, rfl, rfl⟩
    exact ⟨_, moved.trans printed, clear.moved printed⟩

end Moved

end TradingEngine.Queue
