import TradingEngine.Base.Trace
import TradingEngine.Queue.Ahead

/-!
# The life of a paper maker

Every accepted order is filed under its number with what it asked for, the earliest instant it was to be cancelled,
and the order it replaced.
-/

namespace TradingEngine.Queue

open Base CoreTypes List Function Option

variable {uid : Nat} {orders : List Held} {sym : SymbolId} {op : QueueOp} {es : List QueueEvent} {k : Held}

/-! ### Runs -/

/-- What was accepted: the request, the earliest cancel or expiry scheduled for it, what it replaced. -/
structure Filing where
  place : QueuePlace
  due : Nat
  parent : Option Nat
  deriving DecidableEq, Repr

structure QueueDesk where
  book : QueueBook
  filed : Nat → Filing

inductive QueueOp where
  | track (sym : SymbolId)
  | place (p : QueuePlace)
  | cancel (clientOid slot effectiveNs : Nat)
  | modify (prevOid : Nat) (new : QueuePlace)
  | onBook (sym : SymbolId) (touch : Touch) (tNs : Nat)
  | onPrint (sym : SymbolId) (px1e6 qty1e6 : Int) (sellAggressor : Bool) (tNs : Nat)
  deriving DecidableEq, Repr

def QueueOp.record : QueueOp → Option (SymbolId × Nat)
  | .onBook sym _ tNs => some (sym, tNs)
  | .onPrint sym _ _ _ tNs => some (sym, tNs)
  | _ => none

namespace QueueDesk

def new : QueueDesk := ⟨.new, fun _ => ⟨⟨0, 0, .bid, 0, 0, 0, 0, 0⟩, 0, none⟩⟩

def dueBy (filed : Nat → Filing) (held : Option Held) (effectiveNs : Nat) : Nat → Filing :=
  match held with
  | none => filed
  | some h => update filed h.uid { filed h.uid with due := min (filed h.uid).due effectiveNs }

def file (filed : Nat → Filing) (uid : Nat) (p : QueuePlace) (parent : Option Nat) : Nat → Filing :=
  update filed uid ⟨p, p.expiryNs, parent⟩

def take (d : QueueDesk) : QueueOp → QueueDesk
  | .track sym => { d with book := (d.book.track sym).1 }
  | .place p =>
    match d.book.place p with
    | (b, .error _) => { d with book := b }
    | (b, .ok ()) => ⟨b, file d.filed d.book.filed p none⟩
  | .cancel clientOid slot effectiveNs =>
    match d.book.cancel clientOid slot effectiveNs with
    | (b, .error _) => { d with book := b }
    | (b, .ok ()) => ⟨b, dueBy d.filed (d.book.get clientOid slot) effectiveNs⟩
  | .modify prevOid new =>
    match d.book.modify prevOid new with
    | (b, .error _) => { d with book := b }
    | (b, .ok ()) =>
      let old := d.book.get prevOid new.slot
      ⟨b, file (dueBy d.filed old new.readyNs) d.book.filed
        { new with expiryNs := old.elim never fun h => h.order.expiryNs } (old.map Held.uid)⟩
  | .onBook sym touch tNs => { d with book := d.book.onBook sym touch tNs }
  | .onPrint sym px qty sell tNs => { d with book := d.book.onPrint sym px qty sell tNs }

def act (d : QueueDesk) (op : QueueOp) : QueueDesk × List Told :=
  ({ d.take op with book := (d.take op).book.drain.1 }, (d.take op).book.drain.2)

theorem file_old {filed : Nat → Filing} {n : Nat} (lt : uid < n) (p : QueuePlace) (parent : Option Nat) :
    file filed n p parent uid = filed uid := update_of_ne lt.ne _ _

theorem file_new (filed : Nat → Filing) (n : Nat) (p : QueuePlace) (parent : Option Nat) :
    file filed n p parent n = ⟨p, p.expiryNs, parent⟩ := update_self _ _ _

end QueueDesk

theorem findFrom_some {clientOid slot i k : Nat} {found : Option Nat}
    (hit : found.isSome = true) (ok : findFrom clientOid slot orders k found = .ok i) :
    found = some i ∧ ∀ h ∈ orders, h.named clientOid slot = false := by
  induction orders generalizing k with
  | nil =>
    cases found with
    | none => exact nomatch hit
    | some j => exact ⟨congrArg some (Except.ok.inj ok), nofun⟩
  | cons h rest ih =>
    rw [findFrom] at ok
    split at ok
    · exact nomatch ok
    rename_i other
    obtain ⟨same, none⟩ := ih ok
    refine ⟨same, fun x member => ?_⟩
    rcases mem_cons.mp member with rfl | later
    · simpa using other
    · exact none x later

theorem find_ok {clientOid slot i : Nat} (ok : find orders clientOid slot = .ok i) :
    ∃ pre h post, orders = pre ++ h :: post ∧ pre.length = i ∧ h.named clientOid slot = true ∧
      ∀ x ∈ pre ++ post, x.named clientOid slot = false := by
  have pass : ∀ (orders : List Held) (k : Nat), findFrom clientOid slot orders k none = .ok i →
      ∃ pre h post, orders = pre ++ h :: post ∧ k + pre.length = i ∧ h.named clientOid slot = true ∧
        ∀ x ∈ pre ++ post, x.named clientOid slot = false := by
    intro orders
    induction orders with
    | nil => exact fun k ok => nomatch ok
    | cons h rest ih =>
      intro k ok
      rw [findFrom] at ok
      split at ok
      · rename_i named
        obtain ⟨same, none⟩ := findFrom_some rfl ok
        exact ⟨[], h, rest, rfl, some.inj same, named, none⟩
      rename_i other
      obtain ⟨pre, g, post, rfl, index, named, none⟩ := ih (k + 1) ok
      refine ⟨h :: pre, g, post, rfl, by simp only [length_cons]; omega, named, fun x member => ?_⟩
      rcases mem_cons.mp member with rfl | later
      · simpa using other
      · exact none x later
  obtain ⟨pre, h, post, split, index, named, none⟩ := pass orders 0 ok
  exact ⟨pre, h, post, split, by omega, named, none⟩

theorem modify_middle (pre post : List Held) (h : Held) (f : Held → Held) :
    (pre ++ h :: post).modify pre.length f = pre ++ f h :: post := by
  induction pre with
  | nil => rfl
  | cons g pre ih => rw [cons_append, length_cons, modify_succ_cons, ih, cons_append]

/-! ### What a request does -/

structure Silent (b c : QueueBook) : Prop where
  ring : c.out.ring = b.out.ring
  overflow : c.out.counters.outOverflow = b.out.counters.outOverflow
  parity : c.paritySim = b.paritySim

/-- Symbols are only ever added, their touch unknown. -/
def Tracks (b c : QueueBook) : Prop := ∃ new, c.syms = b.syms ++ new ∧ ∀ s ∈ new, s.known = false

theorem Tracks.refl (b : QueueBook) : Tracks b b := ⟨[], (append_nil _).symm, nofun⟩

theorem Tracks.mem {b c : QueueBook} (tracks : Tracks b c) (tracked : sym ∈ b.syms.map SymTouch.sym) :
    sym ∈ c.syms.map SymTouch.sym := by
  obtain ⟨new, syms, _⟩ := tracks
  rw [syms, map_append]
  exact mem_append_left _ tracked

structure Refused (b c : QueueBook) : Prop where
  silent : Silent b c
  orders : c.orders = b.orders
  filed : c.filed = b.filed
  syms : c.syms = b.syms

/-- A request that was taken: one more order at the end of the table. -/
structure Filed (b c : QueueBook) (p : QueuePlace) (link : Nat) : Prop where
  silent : Silent b c
  tracks : Tracks b c
  real : 0 < p.px1e6 ∧ 0 < p.qty1e6
  room : b.orders.length < queueMaxOrders
  orders : c.orders = b.orders ++ [p.held link b.filed]
  filed : c.filed = b.filed + 1
  known : p.sym ∈ c.syms.map SymTouch.sym

section Requests

variable {b c : QueueBook} {p : QueuePlace} {why : QueueRefusal}

theorem refuse_refused {answer : Except QueueRefusal Unit} (bad : b.refuse why = (c, answer)) : Refused b c := by
  obtain ⟨rfl, _⟩ := Prod.mk.inj bad
  exact ⟨⟨rfl, rfl, rfl⟩, rfl, rfl, rfl⟩

theorem track_error (bad : b.track sym = (c, .error why)) : c = b := by
  unfold QueueBook.track at bad
  split at bad
  · exact nomatch (Prod.mk.inj bad).2
  · split at bad
    · exact (Prod.mk.inj bad).1.symm
    · exact nomatch (Prod.mk.inj bad).2

theorem track_ok (ok : b.track sym = (c, .ok ())) :
    Tracks b c ∧ sym ∈ c.syms.map SymTouch.sym ∧ Silent b c ∧ c.orders = b.orders ∧ c.filed = b.filed := by
  unfold QueueBook.track at ok
  split at ok
  · rename_i found
    obtain ⟨rfl, _⟩ := Prod.mk.inj ok
    obtain ⟨s, found⟩ := isSome_iff_exists.mp found
    have named : s.sym = sym := by simpa using find?_some found
    exact ⟨.refl b, mem_map.mpr ⟨s, mem_of_find?_eq_some found, named⟩, ⟨rfl, rfl, rfl⟩, rfl, rfl⟩
  · split at ok
    · exact nomatch (Prod.mk.inj ok).2
    · obtain ⟨rfl, _⟩ := Prod.mk.inj ok
      refine ⟨⟨_, rfl, fun s member => ?_⟩, by simp, ⟨rfl, rfl, rfl⟩, rfl, rfl⟩
      rw [mem_singleton.mp member]

theorem place_error (bad : b.place p = (c, .error why)) : Refused b c := by
  unfold QueueBook.place at bad
  split at bad
  · exact refuse_refused bad
  split at bad
  · exact refuse_refused bad
  · split at bad
    · exact refuse_refused bad
    · exact nomatch (Prod.mk.inj bad).2

theorem place_ok (ok : b.place p = (c, .ok ())) : Filed b c p 0 := by
  unfold QueueBook.place at ok
  split at ok
  · exact nomatch (Prod.mk.inj ok).2
  rename_i real
  push Not at real
  split at ok
  · exact nomatch (Prod.mk.inj ok).2
  rename_i room
  split at ok
  · exact nomatch (Prod.mk.inj ok).2
  rename_i tracked found
  obtain ⟨rfl, _⟩ := Prod.mk.inj ok
  obtain ⟨tracks, known, silent, orders, filed⟩ := track_ok found
  refine ⟨⟨silent.ring, silent.overflow, silent.parity⟩, tracks, real, by omega, ?_, ?_, known⟩
  · rw [← orders, ← filed]
    rfl
  · rw [← filed]
    rfl

theorem schedule_middle {pre post : List Held} {h : Held} (split : b.orders = pre ++ h :: post) (effectiveNs : Nat)
    (reason : EventReason) : b.schedule pre.length effectiveNs reason =
      { b with orders := pre ++ h.cancelBy effectiveNs reason :: post } := by
  unfold QueueBook.schedule
  rw [split, modify_middle]

theorem cancel_cases (clientOid slot effectiveNs : Nat) :
    (∃ why, b.cancel clientOid slot effectiveNs = (b, .error why)) ∨
    ∃ pre h post, b.orders = pre ++ h :: post ∧ h.named clientOid slot = true ∧ b.get clientOid slot = some h ∧
      b.cancel clientOid slot effectiveNs =
        ({ b with orders := pre ++ h.cancelBy effectiveNs .cancelRequested :: post }, .ok ()) := by
  unfold QueueBook.cancel QueueBook.get
  cases found : find b.orders clientOid slot with
  | error why => exact .inl ⟨why, rfl⟩
  | ok i =>
    obtain ⟨pre, h, post, split, rfl, named, _⟩ := find_ok found
    refine .inr ⟨pre, h, post, split, named, ?_, ?_⟩
    · simp [split]
    · dsimp only
      rw [schedule_middle split]

theorem modify_cases (prevOid : Nat) (new : QueuePlace) :
    (∃ c why, b.modify prevOid new = (c, .error why) ∧ Refused b c) ∨
    ∃ pre h post c, b.orders = pre ++ h :: post ∧ h.named prevOid new.slot = true ∧
      (∀ x ∈ pre ++ post, x.named prevOid new.slot = false) ∧ b.get prevOid new.slot = some h ∧
      ((∃ why, b.modify prevOid new = (c, .error why) ∧
          Refused { b with orders := pre ++ h.cancelBy new.readyNs .replaced :: post } c) ∨
        b.modify prevOid new = (c, .ok ()) ∧ Filed { b with orders := pre ++ h.cancelBy new.readyNs .replaced :: post } c
            { new with expiryNs := h.order.expiryNs } prevOid) := by
  unfold QueueBook.modify QueueBook.get
  split
  · exact .inl ⟨_, _, rfl, ⟨rfl, rfl, rfl⟩, rfl, rfl, rfl⟩
  cases found : find b.orders prevOid new.slot with
  | error why => exact .inl ⟨b, why, rfl, ⟨rfl, rfl, rfl⟩, rfl, rfl, rfl⟩
  | ok i =>
    obtain ⟨pre, h, post, split, rfl, named, none⟩ := find_ok found
    dsimp only
    split
    · exact .inl ⟨_, _, rfl, ⟨rfl, rfl, rfl⟩, rfl, rfl, rfl⟩
    have there : b.orders[pre.length]? = some h := by simp [split]
    rw [there, elim_some, schedule_middle split]
    refine .inr ⟨pre, h, post, ?_⟩
    cases placed : ({ b with orders := pre ++ h.cancelBy new.readyNs .replaced :: post } : QueueBook).place
      { new with expiryNs := h.order.expiryNs } with
    | mk c answer =>
      cases answer with
      | error why => exact ⟨c, split, named, none, rfl, .inl ⟨why, rfl, place_error placed⟩⟩
      | ok u =>
        obtain ⟨silent, tracks, real, room, orders, filed, known⟩ := place_ok placed
        refine ⟨c.linkLast prevOid, split, named, none, rfl, .inr ⟨rfl, ⟨silent.ring, silent.overflow,
          silent.parity⟩, tracks, real, room, ?_, filed, known⟩⟩
        unfold QueueBook.linkLast
        dsimp only
        rw [orders, length_append, length_singleton, Nat.add_sub_cancel]
        exact modify_middle _ [] _ _

end Requests

/-- What a request can do to the desk. -/
inductive Requested (d : QueueDesk) : QueueOp → QueueDesk → Prop where
  | refused {op : QueueOp} {c : QueueBook} (refused : Refused d.book c) : Requested d op { d with book := c }
  | tracked {sym : SymbolId} {c : QueueBook} (tracks : Tracks d.book c) (silent : Silent d.book c)
      (orders : c.orders = d.book.orders) (filed : c.filed = d.book.filed) :
      Requested d (.track sym) { d with book := c }
  | placed {p : QueuePlace} {c : QueueBook} (filed : Filed d.book c p 0) :
      Requested d (.place p) ⟨c, QueueDesk.file d.filed d.book.filed p none⟩
  | canceled {pre post : List Held} {h : Held} {clientOid slot effectiveNs : Nat}
      (split : d.book.orders = pre ++ h :: post) (named : h.named clientOid slot = true) :
      Requested d (.cancel clientOid slot effectiveNs)
        ⟨{ d.book with orders := pre ++ h.cancelBy effectiveNs .cancelRequested :: post },
          QueueDesk.dueBy d.filed (some h) effectiveNs⟩
  -- the old order's cancel is scheduled before the new order is refused
  | torn {pre post : List Held} {h : Held} {c : QueueBook} {prevOid : Nat} {new : QueuePlace}
      (split : d.book.orders = pre ++ h :: post) (named : h.named prevOid new.slot = true)
      (refused : Refused { d.book with orders := pre ++ h.cancelBy new.readyNs .replaced :: post } c) :
      Requested d (.modify prevOid new) { d with book := c }
  | replaced {pre post : List Held} {h : Held} {c : QueueBook} {prevOid : Nat} {new : QueuePlace}
      (split : d.book.orders = pre ++ h :: post) (named : h.named prevOid new.slot = true)
      (only : ∀ x ∈ pre ++ post, x.named prevOid new.slot = false)
      (filed : Filed { d.book with orders := pre ++ h.cancelBy new.readyNs .replaced :: post } c
        { new with expiryNs := h.order.expiryNs } prevOid) :
      Requested d (.modify prevOid new)
        ⟨c, QueueDesk.file (QueueDesk.dueBy d.filed (some h) new.readyNs) d.book.filed
          { new with expiryNs := h.order.expiryNs } (some h.uid)⟩

theorem take_requested (d : QueueDesk) (request : op.record = none) : Requested d op (d.take op) := by
  cases op with
  | track sym =>
    unfold QueueDesk.take
    dsimp only
    cases answer : d.book.track sym with
    | mk c result =>
      cases result with
      | error why =>
        obtain rfl := track_error answer
        exact .refused ⟨⟨rfl, rfl, rfl⟩, rfl, rfl, rfl⟩
      | ok u =>
        obtain ⟨tracks, _, silent, orders, filed⟩ := track_ok answer
        exact .tracked tracks silent orders filed
  | place p =>
    unfold QueueDesk.take
    dsimp only
    cases answer : d.book.place p with
    | mk c result =>
      cases result with
      | error why => exact .refused (place_error answer)
      | ok u => exact .placed (place_ok answer)
  | cancel clientOid slot effectiveNs =>
    unfold QueueDesk.take
    dsimp only
    rcases cancel_cases (b := d.book) clientOid slot effectiveNs with
      ⟨why, answer⟩ | ⟨pre, h, post, split, named, held, answer⟩
    · rw [answer]
      exact .refused ⟨⟨rfl, rfl, rfl⟩, rfl, rfl, rfl⟩
    · rw [answer, held]
      exact .canceled split named
  | modify prevOid new =>
    unfold QueueDesk.take
    dsimp only
    rcases modify_cases (b := d.book) prevOid new with
      ⟨c, why, answer, refused⟩ | ⟨pre, h, post, c, split, named, only, held, ⟨why, answer, refused⟩ | ⟨answer, filed⟩⟩
    · rw [answer]
      exact .refused refused
    · rw [answer]
      exact .torn split named refused
    · rw [answer, held]
      exact .replaced split named only filed
  | onBook sym touch tNs => exact nomatch request
  | onPrint sym px qty sell tNs => exact nomatch request

theorem Requested.silent {d after : QueueDesk} (requested : Requested d op after) : Silent d.book after.book := by
  cases requested with
  | refused refused => exact refused.silent
  | tracked _ silent _ _ => exact silent
  | placed filed => exact filed.silent
  | canceled _ _ => exact ⟨rfl, rfl, rfl⟩
  | torn _ _ refused => exact ⟨refused.silent.ring, refused.silent.overflow, refused.silent.parity⟩
  | replaced _ _ _ filed => exact ⟨filed.silent.ring, filed.silent.overflow, filed.silent.parity⟩

/-! ### Lives -/

inductive Stage where
  | pending
  | resting (remaining : Int)
  | gone

/-- The events an order may have told when it has come to a stage. -/
inductive Life (p : QueuePlace) : Stage → List QueueEvent → Prop where
  | filed : Life p .pending []
  | rejected {e : QueueEvent} : e.kind = .rejected → Life p .gone [e]
  | rests {e : QueueEvent} : e.kind = .resting → Life p (.resting p.qty1e6) [e]
  | fills {remaining : Int} {es : List QueueEvent} {e : QueueEvent} : Life p (.resting remaining) es →
      e.kind = .fill → e.px1e6 = p.px1e6 → 0 < e.qty1e6 → e.qty1e6 ≤ remaining →
      Life p (.resting (remaining - e.qty1e6)) (es ++ [e])
  | filled {es : List QueueEvent} {e : QueueEvent} : Life p (.resting 0) es → e.kind = .filled →
      Life p .gone (es ++ [e])
  | canceled {remaining : Int} {es : List QueueEvent} {e : QueueEvent} : Life p (.resting remaining) es →
      0 < remaining → e.kind = .canceled → Life p .gone (es ++ [e])

/-- Nothing yet; or a rejection; or rest, fills at the limit, and at most one end: FILLED when they make
up the whole, CANCELED when they do not. -/
def Shape (p : QueuePlace) (es : List QueueEvent) : Prop :=
  es = [] ∨ (∃ e, es = [e] ∧ e.kind = .rejected) ∨
  ∃ first fills last, es = first :: (fills ++ last) ∧ first.kind = .resting ∧
    (∀ e ∈ fills, e.kind = .fill ∧ e.px1e6 = p.px1e6 ∧ 0 < e.qty1e6) ∧
    (last = [] ∧ (fills.map QueueEvent.qty1e6).sum < p.qty1e6 ∨
      ∃ e, last = [e] ∧ (e.kind = .filled ∧ (fills.map QueueEvent.qty1e6).sum = p.qty1e6 ∨
        e.kind = .canceled ∧ (fills.map QueueEvent.qty1e6).sum < p.qty1e6))

theorem Life.resting_shape {p : QueuePlace} {stage : Stage} (life : Life p stage es)
    {remaining : Int} (resting : stage = .resting remaining) :
    ∃ first fills, es = first :: fills ∧ first.kind = .resting ∧
      (∀ e ∈ fills, e.kind = .fill ∧ e.px1e6 = p.px1e6 ∧ 0 < e.qty1e6) ∧
      (fills.map QueueEvent.qty1e6).sum + remaining = p.qty1e6 := by
  induction life generalizing remaining with
  | filed | rejected _ | filled _ _ _ | canceled _ _ _ _ => exact nomatch resting
  | rests first =>
    obtain rfl := Stage.resting.inj resting
    exact ⟨_, [], rfl, first, nofun, by simp⟩
  | fills _ kind px positive fits ih =>
    obtain ⟨first, fills, rfl, rests, all, total⟩ := ih rfl
    obtain rfl := Stage.resting.inj resting
    refine ⟨first, fills ++ [_], rfl, rests, fun e member => ?_, ?_⟩
    · rcases mem_append.mp member with earlier | last
      · exact all e earlier
      · rw [mem_singleton.mp last]
        exact ⟨kind, px, positive⟩
    · simp only [map_append, map_cons, map_nil, sum_append, sum_cons, sum_nil]
      omega

theorem Life.gone_shape {p : QueuePlace} (life : Life p .gone es) : Shape p es := by
  cases life with
  | rejected kind => exact .inr (.inl ⟨_, rfl, kind⟩)
  | filled before kind =>
    obtain ⟨first, fills, rfl, rests, all, total⟩ := before.resting_shape rfl
    exact .inr (.inr ⟨first, fills, [_], rfl, rests, all, .inr ⟨_, rfl, .inl ⟨kind, by omega⟩⟩⟩)
  | canceled before positive kind =>
    obtain ⟨first, fills, rfl, rests, all, total⟩ := before.resting_shape rfl
    exact .inr (.inr ⟨first, fills, [_], rfl, rests, all, .inr ⟨_, rfl, .inr ⟨kind, by omega⟩⟩⟩)

def Held.stage (h : Held) : Stage :=
  match h.order.state with
  | .pending => .pending
  | .resting => .resting h.order.remaining1e6

theorem Held.stage_pending {h : Held} (pending : h.order.state = .pending) : h.stage = .pending := by
  unfold Held.stage
  rw [pending]

theorem Held.stage_resting {h : Held} (resting : h.order.state = .resting) :
    h.stage = .resting h.order.remaining1e6 := by
  unfold Held.stage
  rw [resting]

structure Held.Agrees (h : Held) (f : Filing) : Prop where
  clientOid : h.order.clientOid = f.place.clientOid
  px : h.order.px1e6 = f.place.px1e6
  sym : h.order.sym = f.place.sym
  slot : h.order.slot = f.place.slot
  ready : h.order.readyNs = f.place.readyNs
  whole : h.order.state = .pending → h.order.remaining1e6 = f.place.qty1e6
  positive : 0 < h.order.remaining1e6
  cancel : h.order.cancelNs ≤ f.due

theorem Turn.agrees {venue tNs : Nat} {table : List Held} {h : Held} {new : List Told} {f : Filing}
    (turn : Turn venue tNs table h (some k) new) (agrees : h.Agrees f) : k.Agrees f := by
  have stems := turn.stems
  refine ⟨stems.clientOid.trans agrees.clientOid, stems.px.trans agrees.px, stems.sym.trans agrees.sym,
    stems.slot.trans agrees.slot, stems.ready.trans agrees.ready, fun pending => ?_, turn.positive agrees.positive,
    stems.cancel.trans_le agrees.cancel⟩
  cases turn with
  | stay ahead => exact agrees.whole pending
  | rest ahead _ ready replaces here settled => exact nomatch pending
  | part ahead fill resting early positive less =>
    rw [show (h.filledBy ahead fill).order.state = h.order.state from rfl, resting] at pending
    exact nomatch pending

theorem Turn.life {venue tNs : Nat} {table : List Held} {h : Held} {o : Option Held} {new : List Told} {f : Filing}
    (turn : Turn venue tNs table h o new) (agrees : h.Agrees f) (life : Life f.place h.stage es) :
    Life f.place (o.elim .gone Held.stage) (es ++ new.map Told.event) := by
  have unborn : h.order.state = .pending → es = [] := by
    intro pending
    rw [Held.stage_pending pending] at life
    cases life
    rfl
  cases turn with
  | stay ahead =>
    rw [map_nil, append_nil]
    exact life
  | reject reason pending ready =>
    rw [unborn pending]
    exact .rejected rfl
  | rest ahead pending ready replaces here settled =>
    rw [unborn pending]
    change Life f.place (.resting h.order.remaining1e6) _
    rw [agrees.whole pending]
    exact .rests rfl
  | cancel resting due =>
    rw [Held.stage_resting resting] at life
    exact .canceled life agrees.positive rfl
  | part ahead fill resting early positive less =>
    rw [Held.stage_resting resting] at life
    rw [elim_some, Held.stage_resting (h := h.filledBy ahead fill) resting]
    exact Life.fills (e := (h.tells tNs .fill .none fill).event) life rfl agrees.px positive less.le
  | whole resting early positive =>
    rw [Held.stage_resting resting] at life
    have all := Life.fills (e := (h.tells tNs .fill .none h.order.remaining1e6).event) life rfl agrees.px positive
      (Int.le_refl _)
    rw [show h.order.remaining1e6 - (h.tells tNs .fill .none h.order.remaining1e6).event.qty1e6 = 0 from
      Int.sub_self _] at all
    have done := Life.filled (e := (h.tells tNs .filled .none 0).event) all rfl
    rwa [append_assoc] at done

/-! ### The table and the file -/

/-- The events of one order. -/
def lifeOf (told : List Told) (uid : Nat) : List QueueEvent := (told.filter fun x => x.uid = uid).map Told.event

theorem Held.cancelBy_eq (h : Held) (effectiveNs : Nat) (reason : EventReason) :
    ∃ why, h.cancelBy effectiveNs reason =
      { h with order := { h.order with cancelNs := min h.order.cancelNs effectiveNs, cancelReason := why } } := by
  unfold Held.cancelBy
  split
  · rename_i sooner
    exact ⟨reason, by rw [min_eq_right sooner.le]⟩
  · rename_i later
    exact ⟨h.order.cancelReason, by rw [min_eq_left (not_lt.mp later)]⟩

theorem lifeOf_append (told new : List Told) (uid : Nat) : lifeOf (told ++ new) uid = lifeOf told uid ++ lifeOf new uid := by
  simp [lifeOf]

theorem lifeOf_own {new : List Told} (own : ∀ x ∈ new, x.uid = uid) : lifeOf new uid = new.map Told.event := by
  unfold lifeOf
  rw [filter_eq_self.mpr fun x member => by simpa using own x member]

theorem lifeOf_other {new : List Told} {other : Nat} (own : ∀ x ∈ new, x.uid = uid) (ne : other ≠ uid) :
    lifeOf new other = [] := by
  unfold lifeOf
  rw [filter_eq_nil_iff.mpr fun x member => by simpa [own x member] using ne.symm, map_nil]

structure Booked (filed : Nat → Filing) (n : Nat) (orders : List Held) (told : List Told) : Prop where
  sorted : orders.Pairwise fun h k => h.uid < k.uid
  below : ∀ h ∈ orders, h.uid < n
  named : ∀ x ∈ told, x.uid < n
  agrees : ∀ h ∈ orders, h.Agrees (filed h.uid)
  lives : ∀ h ∈ orders, Life (filed h.uid).place h.stage (lifeOf told h.uid)
  gone : ∀ uid < n, (∀ h ∈ orders, h.uid ≠ uid) → Life (filed uid).place .gone (lifeOf told uid)

namespace Booked

variable {filed : Nat → Filing} {n : Nat} {pre post : List Held} {h : Held} {told : List Told}

theorem apart (booked : Booked filed n (pre ++ h :: post) told) (member : k ∈ pre ++ post) : k.uid ≠ h.uid := by
  obtain ⟨_, later, before⟩ := pairwise_append.mp booked.sorted
  rcases mem_append.mp member with earlier | after
  · exact (before k earlier h mem_cons_self).ne
  · exact ((pairwise_cons.mp later).1 k after).ne'

theorem unique (booked : Booked filed n orders told) {g : Held} (first : g ∈ orders)
    (second : k ∈ orders) (same : g.uid = k.uid) : g = k := by
  have nodup : (orders.map Held.uid).Nodup := (pairwise_map.mpr booked.sorted).imp ne_of_lt
  exact inj_on_of_nodup_map nodup first second same

theorem replace {again : Nat → Filing} {o : Option Held} {new : List Told}
    (booked : Booked filed n (pre ++ h :: post) told) (uids : ∀ x ∈ new, x.uid = h.uid)
    (places : ∀ uid, (again uid).place = (filed uid).place) (others : ∀ uid, uid ≠ h.uid → again uid = filed uid)
    (same : ∀ k, o = some k → k.uid = h.uid ∧ k.Agrees (again h.uid))
    (life : Life (filed h.uid).place (o.elim .gone Held.stage) (lifeOf told h.uid ++ new.map Told.event)) :
    Booked again n (pre ++ o.toList ++ post) (told ++ new) := by
  have here : h ∈ pre ++ h :: post := mem_append_right _ mem_cons_self
  refine ⟨?_, fun k member => ?_, fun x member => ?_, fun k member => ?_, fun k member => ?_, fun uid lt absent => ?_⟩
  · have kept : (pre ++ o.toList ++ post).map Held.uid <+ (pre ++ h :: post).map Held.uid := by
      cases o with
      | none => simp
      | some k => simp [(same k rfl).1]
    exact pairwise_map.mp ((pairwise_map.mpr booked.sorted).sublist kept)
  · rcases mem_turn h member with ⟨_, other⟩ | own
    · exact booked.below k other
    · rw [(same k own).1]
      exact booked.below h here
  · rcases mem_append.mp member with earlier | fresh
    · exact booked.named x earlier
    · rw [uids x fresh]
      exact booked.below h here
  · rcases mem_turn h member with ⟨apart, other⟩ | own
    · rw [others _ (booked.apart apart)]
      exact booked.agrees k other
    · rw [(same k own).1]
      exact (same k own).2
  · rw [lifeOf_append, places]
    rcases mem_turn h member with ⟨apart, other⟩ | rfl
    · rw [lifeOf_other uids (booked.apart apart), append_nil]
      exact booked.lives k other
    · rw [(same k rfl).1, lifeOf_own uids]
      exact life
  · rw [lifeOf_append, places]
    rcases eq_or_ne uid h.uid with rfl | ne
    · rw [lifeOf_own uids]
      cases o with
      | none => exact life
      | some k => exact absurd (same k rfl).1 (absent k (by simp))
    · rw [lifeOf_other uids ne, append_nil]
      refine booked.gone uid lt fun k member => ?_
      rcases mem_append.mp member with earlier | rest
      · exact absent k (by simp [earlier])
      · rcases mem_cons.mp rest with rfl | after
        · exact ne.symm
        · exact absent k (by simp [after])

theorem turn {venue tNs : Nat} {o : Option Held} {new : List Told} (booked : Booked filed n (pre ++ h :: post) told)
    (turn : Turn venue tNs (pre ++ h :: post) h o new) : Booked filed n (pre ++ o.toList ++ post) (told ++ new) := by
  have here : h ∈ pre ++ h :: post := mem_append_right _ mem_cons_self
  refine booked.replace turn.uids (fun _ => rfl) (fun _ _ => rfl) ?_ (turn.life (booked.agrees h here) (booked.lives h here))
  rintro k rfl
  exact ⟨turn.stems.uid, turn.agrees (booked.agrees h here)⟩

theorem turned {venue tNs : Nat} {a b : List Held} {new : List Told} (booked : Booked filed n a told)
    (turned : Turned venue tNs a b new) : Booked filed n b (told ++ new) :=
  turned.keeps (I := Booked filed n) (fun booked turn => booked.turn turn) booked

theorem shape (booked : Booked filed n orders told) (lt : uid < n) : Shape (filed uid).place (lifeOf told uid) := by
  by_cases held : ∃ h ∈ orders, h.uid = uid
  · obtain ⟨h, member, rfl⟩ := held
    have life := booked.lives h member
    have positive := (booked.agrees h member).positive
    cases state : h.order.state with
    | pending =>
      rw [Held.stage_pending state] at life
      cases empty : lifeOf told h.uid with
      | nil => exact .inl rfl
      | cons e es =>
        rw [empty] at life
        exact nomatch life
    | resting =>
      rw [Held.stage_resting state] at life
      obtain ⟨first, fills, es, rests, all, total⟩ := life.resting_shape rfl
      exact .inr (.inr ⟨first, fills, [], by rw [es, append_nil], rests, all, .inl ⟨rfl, by omega⟩⟩)
  · push Not at held
    exact (booked.gone uid lt held).gone_shape

theorem cancelBy (booked : Booked filed n (pre ++ h :: post) told) {again : Nat → Filing} (effectiveNs : Nat)
    (reason : EventReason) (places : ∀ uid, (again uid).place = (filed uid).place)
    (others : ∀ uid, uid ≠ h.uid → again uid = filed uid)
    (due : min (filed h.uid).due effectiveNs ≤ (again h.uid).due) :
    Booked again n (pre ++ h.cancelBy effectiveNs reason :: post) told := by
  have here : h ∈ pre ++ h :: post := mem_append_right _ mem_cons_self
  obtain ⟨why, scheduled⟩ := h.cancelBy_eq effectiveNs reason
  obtain ⟨oid, px, sym, slot, ready, whole, positive, cancel⟩ := booked.agrees h here
  rw [scheduled, append_cons, ← append_nil told]
  refine booked.replace (o := some _) (by simp) places others ?_ ?_
  · rintro k ⟨⟩
    refine ⟨rfl, ?_⟩
    constructor <;> simp only [places]
    exacts [oid, px, sym, slot, ready, whole, positive, by omega]
  · rw [map_nil, append_nil]
    exact booked.lives h here

theorem append (booked : Booked filed n orders told) (p : QueuePlace) (link : Nat)
    (parent : Option Nat) (positive : 0 < p.qty1e6) :
    Booked (QueueDesk.file filed n p parent) (n + 1) (orders ++ [p.held link n]) told := by
  have silent : lifeOf told n = [] := by
    unfold lifeOf
    rw [filter_eq_nil_iff.mpr fun x member => by simpa using (booked.named x member).ne, map_nil]
  refine ⟨?_, fun k member => ?_, fun x member => Nat.lt_succ_of_lt (booked.named x member), fun k member => ?_,
    fun k member => ?_, fun uid lt absent => ?_⟩
  · refine pairwise_append.mpr ⟨booked.sorted, pairwise_singleton _ _, fun x listed y last => ?_⟩
    rw [mem_singleton.mp last]
    exact booked.below x listed
  · rcases mem_append.mp member with listed | last
    · exact Nat.lt_succ_of_lt (booked.below k listed)
    · rw [mem_singleton.mp last]
      exact Nat.lt_succ_self n
  · rcases mem_append.mp member with listed | last
    · rw [QueueDesk.file_old (booked.below k listed)]
      exact booked.agrees k listed
    obtain rfl := mem_singleton.mp last
    change (p.held link n).Agrees (QueueDesk.file filed n p parent n)
    rw [QueueDesk.file_new]
    exact ⟨rfl, rfl, rfl, rfl, rfl, fun _ => rfl, positive, Nat.le_refl _⟩
  · rcases mem_append.mp member with listed | last
    · rw [QueueDesk.file_old (booked.below k listed)]
      exact booked.lives k listed
    obtain rfl := mem_singleton.mp last
    change Life _ .pending (lifeOf told n)
    rw [silent]
    exact .filed
  · have lower : uid ≠ n := (absent (p.held link n) (by simp)).symm
    have lt : uid < n := by omega
    rw [QueueDesk.file_old lt]
    exact booked.gone uid lt fun k listed => absent k (mem_append_left _ listed)

end Booked

/-! ### Every run -/

structure Sound (d : QueueDesk) (past : List Told) : Prop where
  law : d.book.paritySim = false
  drained : d.book.out.ring.len = 0
  inside : d.book.out.ring.head < queueOutCap
  whole : d.book.out.counters.outOverflow = 0
  fits : d.book.orders.length ≤ queueMaxOrders
  tracked : ∀ h ∈ d.book.orders, h.order.sym ∈ d.book.syms.map SymTouch.sym
  booked : Booked d.filed d.book.filed d.book.orders past

theorem Sound.new : Sound .new [] := by
  refine ⟨rfl, rfl, by decide, rfl, Nat.zero_le _, nofun, ?_⟩
  exact ⟨List.Pairwise.nil, nofun, nofun, nofun, nofun, nofun⟩

theorem drain_silent {b : QueueBook} (empty : b.out.ring.len = 0) : b.drain = (b, []) := by
  unfold QueueBook.drain
  rw [empty]
  rfl

namespace Sound

variable {d : QueueDesk} {past : List Told} {venue tNs : Nat} {c : QueueBook} {new : List Told}

section

variable (sound : Sound d past)

include sound

theorem room : Room d.book := by
  have most := burden_le d.book.orders
  have fits := sound.fits
  have empty := sound.drained
  unfold Room queueOutCap
  omega

theorem drain (moved : Moved venue tNs d.book c new) :
    c.drain.2 = new ∧ c.drain.1.out.ring.head < queueOutCap ∧ c.drain.1.out.ring.len = 0 := by
  have inside : c.out.ring.head < queueOutCap := by
    rw [moved.gains.head]
    exact sound.inside
  obtain ⟨all, head, empty⟩ := RingBuffer.drain_contents inside
  refine ⟨all.trans ?_, head, empty⟩
  have before : d.book.out.ring.contents queueOutCap = [] := by
    unfold RingBuffer.contents
    rw [sound.drained]
    rfl
  rw [moved.gains.contents, before, nil_append]

theorem record (moved : Moved venue tNs d.book c new) : Sound { d with book := c.drain.1 } (past ++ c.drain.2) := by
  obtain ⟨told, head, empty⟩ := sound.drain moved
  rw [told]
  refine ⟨moved.parity.trans sound.law, empty, head, moved.gains.overflow.trans sound.whole,
    moved.turned.length.trans sound.fits, ?_, ?_⟩
  · change ∀ h ∈ c.orders, h.order.sym ∈ c.syms.map SymTouch.sym
    rw [moved.syms]
    refine moved.turned.each (fun turn tracked => ?_) sound.tracked
    rw [turn.stems.sym]
    exact tracked
  · change Booked d.filed c.filed c.orders _
    rw [moved.filed]
    exact sound.booked.turned moved.turned

theorem request {e : QueueDesk} (silent : Silent d.book e.book) (fits : e.book.orders.length ≤ queueMaxOrders)
    (tracked : ∀ h ∈ e.book.orders, h.order.sym ∈ e.book.syms.map SymTouch.sym)
    (booked : Booked e.filed e.book.filed e.book.orders past) :
    Sound { e with book := e.book.drain.1 } (past ++ e.book.drain.2) := by
  have empty : e.book.out.ring.len = 0 := by
    rw [silent.ring]
    exact sound.drained
  rw [drain_silent empty, append_nil]
  refine ⟨silent.parity.trans sound.law, empty, ?_, silent.overflow.trans sound.whole, fits, tracked, booked⟩
  rw [silent.ring]
  exact sound.inside

theorem refused (refused : Refused d.book c) : Sound { d with book := c.drain.1 } (past ++ c.drain.2) := by
  refine sound.request (e := { d with book := c }) refused.silent ?_ ?_ ?_
  · change c.orders.length ≤ queueMaxOrders
    rw [refused.orders]
    exact sound.fits
  · change ∀ h ∈ c.orders, h.order.sym ∈ c.syms.map SymTouch.sym
    rw [refused.orders, refused.syms]
    exact sound.tracked
  · change Booked d.filed c.filed c.orders past
    rw [refused.orders, refused.filed]
    exact sound.booked

theorem scheduled {pre post : List Held} {h : Held} (split : d.book.orders = pre ++ h :: post)
    {again : Nat → Filing} (effectiveNs : Nat) (reason : EventReason)
    (places : ∀ uid, (again uid).place = (d.filed uid).place)
    (others : ∀ uid, uid ≠ h.uid → again uid = d.filed uid)
    (due : min (d.filed h.uid).due effectiveNs ≤ (again h.uid).due) :
    Sound ⟨{ d.book with orders := pre ++ h.cancelBy effectiveNs reason :: post }, again⟩ past := by
  have fits := sound.fits
  have tracked := sound.tracked
  have booked := sound.booked
  rw [split] at fits tracked booked
  refine ⟨sound.law, sound.drained, sound.inside, sound.whole, ?_, fun k member => ?_,
    booked.cancelBy effectiveNs reason places others due⟩
  · simpa using fits
  rcases mem_swapped h member with rfl | listed
  · obtain ⟨why, scheduled⟩ := h.cancelBy_eq effectiveNs reason
    rw [scheduled]
    exact tracked h (mem_append_right _ mem_cons_self)
  · exact tracked k listed

theorem filed {p : QueuePlace} {link : Nat} (filed : Filed d.book c p link) (parent : Option Nat) :
    Sound ⟨c.drain.1, QueueDesk.file d.filed d.book.filed p parent⟩ (past ++ c.drain.2) := by
  refine sound.request (e := ⟨c, QueueDesk.file d.filed d.book.filed p parent⟩) filed.silent ?_ ?_ ?_
  · change c.orders.length ≤ queueMaxOrders
    have room := filed.room
    rw [filed.orders, length_append, length_singleton]
    omega
  · change ∀ h ∈ c.orders, h.order.sym ∈ c.syms.map SymTouch.sym
    rw [filed.orders]
    intro k member
    rcases mem_append.mp member with listed | last
    · exact filed.tracks.mem (sound.tracked k listed)
    · rw [mem_singleton.mp last]
      exact filed.known
  · change Booked _ c.filed c.orders past
    rw [filed.filed, filed.orders]
    exact sound.booked.append p link parent filed.real.2

end

theorem dueBy_places (filed : Nat → Filing) (h : Held) (effectiveNs uid : Nat) :
    (QueueDesk.dueBy filed (some h) effectiveNs uid).place = (filed uid).place := by
  unfold QueueDesk.dueBy
  dsimp only
  rcases eq_or_ne uid h.uid with rfl | ne
  · rw [update_self]
  · rw [update_of_ne ne]

theorem dueBy_due (filed : Nat → Filing) (h : Held) (effectiveNs : Nat) :
    min (filed h.uid).due effectiveNs ≤ (QueueDesk.dueBy filed (some h) effectiveNs h.uid).due := by
  unfold QueueDesk.dueBy
  dsimp only
  rw [update_self]

theorem record_moved (sound : Sound d past) {tNs : Nat} (record : op.record = some (sym, tNs)) :
    ∃ new, Moved (symbolVenueByte sym) tNs d.book (d.take op).book new ∧ VenueClear tNs sym (d.take op).book ∧ (d.take op).filed = d.filed := by
  cases op with
  | onBook s touch t =>
    obtain ⟨rfl, rfl⟩ := Prod.mk.inj (some.inj record)
    obtain ⟨new, moved, clear⟩ := onBook_moved s touch t sound.law sound.room
    exact ⟨new, moved, clear, rfl⟩
  | onPrint s px qty sell t =>
    obtain ⟨rfl, rfl⟩ := Prod.mk.inj (some.inj record)
    obtain ⟨new, moved, clear⟩ := onPrint_moved s px qty sell t sound.law sound.room
      fun h member => (sound.booked.agrees h member).positive
    exact ⟨new, moved, clear, rfl⟩
  | _ => exact nomatch record

theorem act (op : QueueOp) : Keeps Sound fun d => d.act op := by
  intro d past sound
  change Sound ⟨(d.take op).book.drain.1, (d.take op).filed⟩ (past ++ (d.take op).book.drain.2)
  cases record : op.record with
  | some at' =>
    obtain ⟨new, moved, _, filed⟩ := sound.record_moved record
    rw [filed]
    exact sound.record moved
  | none =>
    have requested := take_requested d record
    generalize d.take op = after at requested
    cases requested with
    | refused refused => exact sound.refused refused
    | tracked tracks silent orders filed =>
      rename_i c
      refine sound.request (e := { d with book := c }) silent ?_ ?_ ?_
      · change c.orders.length ≤ _
        rw [orders]
        exact sound.fits
      · change ∀ h ∈ c.orders, h.order.sym ∈ c.syms.map SymTouch.sym
        rw [orders]
        exact fun h member => tracks.mem (sound.tracked h member)
      · change Booked d.filed c.filed c.orders past
        rw [orders, filed]
        exact sound.booked
    | placed filed => exact sound.filed filed none
    | canceled split named =>
      rename_i pre post h clientOid slot effectiveNs
      have next := sound.scheduled split effectiveNs .cancelRequested (dueBy_places d.filed h effectiveNs)
        (fun uid ne => update_of_ne ne _ _) (dueBy_due d.filed h effectiveNs)
      exact next.refused ⟨⟨rfl, rfl, rfl⟩, rfl, rfl, rfl⟩
    | torn split named refused =>
      rename_i pre post h c prevOid new
      have next := sound.scheduled split new.readyNs .replaced (fun _ => rfl) (fun _ _ => rfl) (Nat.min_le_left _ _)
      exact next.refused refused
    | replaced split named only filed =>
      rename_i pre post h c prevOid new
      have next := sound.scheduled split new.readyNs .replaced (dueBy_places d.filed h new.readyNs)
        (fun uid ne => update_of_ne ne _ _) (dueBy_due d.filed h new.readyNs)
      exact next.filed filed (some h.uid)

end Sound

theorem Turned.fills {venue tNs : Nat} {a b : List Held} {new : List Told} {filed : Nat → Filing}
    (turned : Turned venue tNs a b new) (due : ∀ h ∈ a, h.order.cancelNs ≤ (filed h.uid).due) :
    ∀ x ∈ new, x.event.kind = .fill → tNs < (filed x.uid).due := by
  induction turned with
  | start => exact nofun
  | turn earlier last ih =>
    rename_i pre post h o told more
    intro x member fill
    rcases mem_append.mp member with before | fresh
    · exact ih x before fill
    rw [last.uids x fresh]
    have here : h.order.cancelNs ≤ (filed h.uid).due := by
      refine earlier.each (P := fun h => h.order.cancelNs ≤ (filed h.uid).due) (fun turn kept => ?_) due h
        (mem_append_right _ mem_cons_self)
      rw [turn.stems.cancel, turn.stems.uid]
      exact kept
    cases last with
    | part ahead fill resting early positive less => exact early.trans_le here
    | whole resting early positive => exact early.trans_le here
    | _ => simp_all [Held.tells]

/-! ### The queue ahead over calls -/

def QueueOp.Displayed : QueueOp → Prop
  | .onBook _ touch _ => touch.Displayed
  | .onPrint _ _ qty1e6 _ _ => qty1e6 ≤ i64Max
  | _ => True

theorem scheduled_ebbs {b : QueueBook} {pre post : List Held} {h : Held} (calm : CalmBook b)
    (split : b.orders = pre ++ h :: post) (effectiveNs : Nat) (reason : EventReason) :
    CalmBook { b with orders := pre ++ h.cancelBy effectiveNs reason :: post } ∧
      Ebbed b { b with orders := pre ++ h.cancelBy effectiveNs reason :: post } := by
  obtain ⟨why, scheduled⟩ := h.cancelBy_eq effectiveNs reason
  have orders := calm.orders
  rw [split] at orders
  have here := orders h (mem_append_right _ mem_cons_self)
  rw [scheduled]
  refine ⟨⟨fun k member => ?_, calm.touches⟩, fun k member => ?_⟩
  · rcases mem_swapped h member with rfl | listed
    · exact here
    · exact orders k listed
  · rw [split]
    rcases mem_swapped h member with rfl | listed
    · exact ⟨h, mem_append_right _ mem_cons_self, rfl, fun known => ⟨known, Int.le_refl _⟩⟩
    · exact ⟨k, listed, .refl k⟩

theorem Tracks.touches {b c : QueueBook} (tracks : Tracks b c)
    (touches : ∀ s ∈ b.syms, s.known = true → s.touch.Displayed) :
    ∀ s ∈ c.syms, s.known = true → s.touch.Displayed := by
  obtain ⟨new, syms, unknown⟩ := tracks
  intro s member known
  rw [syms] at member
  rcases mem_append.mp member with listed | fresh
  · exact touches s listed known
  · rw [unknown s fresh] at known
    exact nomatch known

theorem Filed.ebbs {b c : QueueBook} {p : QueuePlace} {link : Nat} (filed : Filed b c p link) (calm : CalmBook b) :
    CalmBook c ∧ ∀ k ∈ c.orders, k ∈ b.orders ∨ k.uid = b.filed := by
  have cases : ∀ k ∈ c.orders, k ∈ b.orders ∨ k = p.held link b.filed := by
    intro k member
    rw [filed.orders] at member
    exact (mem_append.mp member).imp_right mem_singleton.mp
  refine ⟨⟨fun k member => ?_, filed.tracks.touches calm.touches⟩, fun k member => ?_⟩
  · rcases cases k member with listed | rfl
    · exact calm.orders k listed
    · exact ⟨fun _ => rfl, .inl rfl, filed.real.2⟩
  · rcases cases k member with listed | rfl
    · exact .inl listed
    · exact .inr rfl

theorem Refused.calm {b c : QueueBook} (refused : Refused b c) (calm : CalmBook b) : CalmBook c :=
  ⟨refused.orders ▸ calm.orders, refused.syms ▸ calm.touches⟩

theorem take_ebbs {d : QueueDesk} (displayed : op.Displayed) (calm : CalmBook d.book) :
    CalmBook (d.take op).book ∧ ∀ k ∈ (d.take op).book.orders, (∃ h ∈ d.book.orders, h.Ebbs k) ∨ k.uid = d.book.filed := by
  cases record : op.record with
  | some at' =>
    have ebbed : CalmBook (d.take op).book ∧ Ebbed d.book (d.take op).book := by
      cases op with
      | onBook sym touch tNs => exact onBook_ebbs displayed calm
      | onPrint sym px qty sell tNs => exact onPrint_ebbs displayed calm
      | _ => exact nomatch record
    exact ⟨ebbed.1, fun k member => .inl (ebbed.2 k member)⟩
  | none =>
    have requested := take_requested d record
    generalize d.take op = after at requested
    have same : ∀ k ∈ d.book.orders, (∃ h ∈ d.book.orders, h.Ebbs k) ∨ k.uid = d.book.filed :=
      fun k member => .inl ⟨k, member, .refl k⟩
    cases requested with
    | refused refused =>
      refine ⟨refused.calm calm, ?_⟩
      rw [refused.orders]
      exact same
    | tracked tracks _ orders _ =>
      refine ⟨⟨?_, tracks.touches calm.touches⟩, ?_⟩
      · rw [orders]
        exact calm.orders
      · rw [orders]
        exact same
    | placed filed =>
      obtain ⟨after, cases⟩ := filed.ebbs calm
      exact ⟨after, fun k member => (cases k member).imp_left fun listed => ⟨k, listed, .refl k⟩⟩
    | canceled split _ =>
      obtain ⟨after, ebbed⟩ := scheduled_ebbs calm split _ .cancelRequested
      exact ⟨after, fun k member => .inl (ebbed k member)⟩
    | torn split _ refused =>
      obtain ⟨after, ebbed⟩ := scheduled_ebbs calm split _ .replaced
      refine ⟨refused.calm after, ?_⟩
      rw [refused.orders]
      exact fun k member => .inl (ebbed k member)
    | replaced split _ _ filed =>
      obtain ⟨scheduled, ebbed⟩ := scheduled_ebbs calm split _ .replaced
      obtain ⟨after, cases⟩ := filed.ebbs scheduled
      exact ⟨after, fun k member => (cases k member).imp_left (ebbed k)⟩

theorem Sound.ahead {d : QueueDesk} {past : List Told} (sound : Sound d past) (calm : CalmBook d.book)
    (displayed : op.Displayed) {h : Held} (before : h ∈ d.book.orders) (after : k ∈ (d.take op).book.orders)
    (same : k.uid = h.uid) (known : h.order.ahead1e6 ≠ aheadUnknown) :
    k.order.ahead1e6 ≠ aheadUnknown ∧ k.order.ahead1e6 ≤ h.order.ahead1e6 := by
  rcases (take_ebbs displayed calm).2 k after with ⟨g, listed, uid, ebbs⟩ | fresh
  · obtain rfl := sound.booked.unique listed before (uid.symm.trans same)
    have size := (calm.orders g before).2.1.resolve_left known
    obtain ⟨known, less⟩ := ebbs size.1
    refine ⟨fun unknown => ?_, less⟩
    rw [unknown] at known
    exact absurd known (by decide)
  · have below := sound.booked.below h before
    omega

theorem CalmBook.new : CalmBook .new := ⟨nofun, nofun⟩

/-- In every run drained after each call: every accepted order lives one life, no fill comes at or after
the instant its order was to end, every record clears its venue, and the ring drops nothing. Where the
displayed sizes are real ones, a known queue ahead never grows. -/
theorem queue_life (ops : List QueueOp) :
    let s := run (watch QueueDesk.act) (QueueDesk.new, []) ops
    (∀ uid < s.1.book.filed, Shape (s.1.filed uid).place (lifeOf s.2 uid)) ∧
    (∀ x ∈ s.2, x.uid < s.1.book.filed) ∧
    (∀ op, ∀ x ∈ (s.1.act op).2, x.event.kind = .fill →
      ∃ sym tNs, op.record = some (sym, tNs) ∧ tNs < (s.1.filed x.uid).due) ∧
    (∀ op sym tNs, op.record = some (sym, tNs) → ∀ h ∈ (s.1.act op).1.book.orders,
      symbolVenueByte h.order.sym = symbolVenueByte sym → ¬ Due tNs h.order) ∧
    s.1.book.out.counters.outOverflow = 0 ∧
    ((∀ op ∈ ops, op.Displayed) → ∀ op, op.Displayed → ∀ h ∈ s.1.book.orders, ∀ k ∈ (s.1.act op).1.book.orders,
      k.uid = h.uid → h.order.ahead1e6 ≠ aheadUnknown →
      k.order.ahead1e6 ≠ aheadUnknown ∧ k.order.ahead1e6 ≤ h.order.ahead1e6) := by
  intro s
  have sound : Sound s.1 s.2 := watch_invariant Sound.act Sound.new ops
  refine ⟨fun uid lt => sound.booked.shape lt, sound.booked.named, fun op x told fill => ?_,
    fun op sym tNs record h member venue => ?_, sound.whole, fun real op displayed h before k after same known => ?_⟩
  · cases record : op.record with
    | none =>
      have silent := (take_requested s.1 record).silent
      have nothing : (s.1.act op).2 = [] :=
        congrArg Prod.snd (drain_silent ((congrArg RingBuffer.len silent.ring).trans sound.drained))
      rw [nothing] at told
      exact absurd told not_mem_nil
    | some at' =>
      obtain ⟨sym, tNs⟩ := at'
      obtain ⟨new, moved, _, _⟩ := sound.record_moved record
      refine ⟨sym, tNs, rfl, moved.turned.fills (fun h member => (sound.booked.agrees h member).cancel) x ?_ fill⟩
      rw [← (sound.drain moved).1]
      exact told
  · obtain ⟨new, _, clear, _⟩ := sound.record_moved record
    have next : Sound (s.1.act op).1 (s.2 ++ (s.1.act op).2) := Sound.act op s.1 s.2 sound
    exact clear h.order.sym (next.tracked h member) venue h member rfl
  · have calm : CalmBook s.1.book := by
      refine run_invariant_of (P := fun s : QueueDesk × List Told => CalmBook s.1.book) CalmBook.new (fun s op displayed calm => ?_) real
      obtain ⟨orders, touches⟩ := (take_ebbs displayed calm).1
      exact ⟨orders, touches⟩
    exact sound.ahead calm displayed before after same known

/-- A bid that rests at the touch, with a size displayed there. -/
def bidBehind (size : Int) : List QueueOp :=
  [.track 67108865, .onBook 67108865 ⟨100000000, 101000000, size, 5000000⟩ 5,
    .place ⟨7, 67108865, .bid, 0, 100000000, 5000000, 10, never⟩,
    .onBook 67108865 ⟨100000000, 101000000, size, 5000000⟩ 12]

/-- A print of two at the price: two fewer are ahead. -/
theorem print_takes_from_the_queue :
    let s := run (watch QueueDesk.act) (QueueDesk.new, []) (bidBehind 9)
    let after := (s.1.act (.onPrint 67108865 100000000 2 true 13)).1
    s.1.book.orders.map (fun h => h.order.ahead1e6) = [9] ∧
    after.book.orders.map (fun h => h.order.ahead1e6) = [7] ∧
    ∀ h ∈ s.1.book.orders, ∀ k ∈ after.book.orders, k.uid = h.uid → h.order.ahead1e6 ≠ aheadUnknown →
      k.order.ahead1e6 ≠ aheadUnknown ∧ k.order.ahead1e6 ≤ h.order.ahead1e6 := by
  refine ⟨by decide +kernel, by decide +kernel, ?_⟩
  obtain ⟨_, _, _, _, _, ahead⟩ := queue_life (bidBehind 9)
  refine ahead (fun op member => ?_) _ (show (2 : Int) ≤ i64Max by decide)
  simp only [bidBehind, mem_cons, not_mem_nil, or_false] at member
  have shown : Touch.Displayed ⟨100000000, 101000000, 9, 5000000⟩ := by
    unfold Touch.Displayed Sized
    decide
  rcases member with rfl | rfl | rfl | rfl
  · trivial
  · exact shown
  · trivial
  · exact shown

/-- A touch may display a negative size. Five below nothing ahead becomes nothing ahead at the next
print, which also fills what the debt adds to it. -/
theorem negative_size_ahead_grows :
    let s := run (watch QueueDesk.act) (QueueDesk.new, []) (bidBehind (-5))
    ∃ h ∈ s.1.book.orders, ∃ k ∈ (s.1.act (.onPrint 67108865 100000000 1 true 13)).1.book.orders,
      k.uid = h.uid ∧ h.order.ahead1e6 ≠ aheadUnknown ∧ h.order.ahead1e6 < k.order.ahead1e6 := by
  decide +kernel

end TradingEngine.Queue
