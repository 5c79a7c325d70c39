import TradingEngine.Base.Probing
import TradingEngine.Base.Run

/-!
# The open-order table

A table of 1024 orders with a free list and two id indexes, one by placement id and one by the current id and the id
of a modify in flight.
-/

namespace TradingEngine.Venue
open Base Function Finset

@[irreducible]
def ootCap : Nat := 1024

@[irreducible]
def ixCap : Nat := 2048

theorem ixCap_eq : ixCap = 2 * ootCap := by
  unfold ixCap ootCap
  rfl

theorem ootCap_eq : ootCap = 1024 := by
  unfold ootCap
  rfl

theorem ootCap_pos : 0 < ootCap := by
  unfold ootCap
  decide

structure IxSlot where
  oid : UInt64
  slot : UInt8
  entry : Nat
  deriving DecidableEq, Repr

def IxSlot.key (x : IxSlot) : UInt64 × UInt8 := (x.oid, x.slot)

abbrev IdIndex := Nat → Option IxSlot

def ixHome (oid : UInt64) (slot : UInt8) : Nat :=
  ((oid ^^^ (slot.toUInt64 <<< 56)) * 0x9E3779B97F4A7C15).toNat >>> (64 - 11)

def IxSlot.home (x : IxSlot) : Nat := ixHome x.oid x.slot

namespace IdIndex

def seek (t : IdIndex) (oid : UInt64) (slot : UInt8) : Landing :=
  probe ixCap t (fun x => x.oid = oid ∧ x.slot = slot) ixCap (ixHome oid slot)

/-- `none`: the loop does not end. -/
def get (t : IdIndex) (oid : UInt64) (slot : UInt8) : Option (Option Nat) :=
  match t.seek oid slot with
  | .hit i => some ((t i).map IxSlot.entry)
  | .empty _ => some none
  | .lost => none

def insert (t : IdIndex) (oid : UInt64) (slot : UInt8) (entry : Nat) : Option (Bool × IdIndex) :=
  match t.seek oid slot with
  | .hit _ => some (false, t)
  | .empty i => some (true, update t i (some ⟨oid, slot, entry⟩))
  | .lost => none

def remove (t : IdIndex) (oid : UInt64) (slot : UInt8) : Option (Bool × IdIndex) :=
  match t.seek oid slot with
  | .hit i =>
    let shifted := shiftBack ixCap IxSlot.home ixCap t i (nextSlot ixCap i)
    if shifted.2.2 then some (true, update shifted.1 shifted.2.1 none) else none
  | .empty _ => some (false, t)
  | .lost => none

end IdIndex

inductive OotState where
  | free
  | sent
  | live
  | inDoubt
  deriving DecidableEq, Repr

def ofModifySent : UInt8 := (1 : UInt8) <<< 2

def ofAcked : UInt8 := (1 : UInt8) <<< 4

structure OotEntry where
  cidOid : UInt64 := 0
  currentOid : UInt64 := 0
  pendingOid : UInt64 := 0
  venueOid : UInt64 := 0
  qty : Int := 0
  filled : Int := 0
  px : Int := 0
  row : Nat := 0
  slot : UInt8 := 0
  side : UInt8 := 0
  kind : UInt8 := 0
  state : OotState := .free
  flags : UInt8 := 0
  owe : UInt8 := 0
  deriving DecidableEq, Repr

structure OotAux where
  placedNs : Nat := 0
  pendingPx : Int := 0
  pendingQty : Int := 0
  abortedOid : UInt64 := 0
  modifySentNs : Nat := 0
  gen : UInt32 := 0
  placeFlags : UInt8 := 0
  bookedQuote : Int := 0
  deriving DecidableEq, Repr

inductive OotErr where
  | full
  | duplicate
  deriving DecidableEq, Repr

/-- `free` is the stack of free entries, the next one first. -/
structure Oot where
  e : Nat → OotEntry
  aux : Nat → OotAux
  free : List Nat
  byCid : IdIndex
  byCur : IdIndex
  inDoubt : Nat

structure Placement where
  slot : UInt8
  clientOid : UInt64
  row : Nat
  side : UInt8
  kind : UInt8
  px : Int
  qty : Int
  nowNs : Nat
  deriving DecidableEq, Repr

namespace Oot

def new : Oot := ⟨fun _ => {}, fun _ => {}, List.range ootCap, fun _ => none, fun _ => none, 0⟩

def opened (p : Placement) : OotEntry :=
  { cidOid := p.clientOid, currentOid := p.clientOid, qty := p.qty, px := p.px, row := p.row, slot := p.slot,
    side := p.side, kind := p.kind, state := .sent }

def insert (t : Oot) (p : Placement) : Option (Except OotErr Nat × Oot) :=
  match t.free with
  | [] => some (.error .full, t)
  | ix :: rest => do
    if (← t.byCid.get p.clientOid p.slot).isSome then return (.error .duplicate, t)
    if (← t.byCur.get p.clientOid p.slot).isSome then return (.error .duplicate, t)
    let cid ← t.byCid.insert p.clientOid p.slot ix
    let cur ← t.byCur.insert p.clientOid p.slot ix
    return (.ok ix,
      { t with
        e := update t.e ix (opened p)
        aux := update t.aux ix { placedNs := p.nowNs, gen := (t.aux ix).gen + 1 }
        free := rest
        byCid := cid.2
        byCur := cur.2 })

def byPlacement (t : Oot) (slot : UInt8) (oid : UInt64) : Option (Option Nat) := t.byCid.get oid slot

def byCurrent (t : Oot) (slot : UInt8) (oid : UInt64) : Option (Option Nat) := t.byCur.get oid slot

def isOpen (t : Oot) (ix : Nat) : Bool := ix < ootCap && (t.e ix).state != .free

def setEntry (t : Oot) (ix : Nat) (f : OotEntry → OotEntry) : Oot := { t with e := update t.e ix (f (t.e ix)) }

def addPending (t : Oot) (ix : Nat) (newOid : UInt64) (px qty : Int) (nowNs : Nat) : Option (Bool × Oot) :=
  if newOid = 0 then some (false, t)
  else do
    let (inserted, cur) ← t.byCur.insert newOid (t.e ix).slot ix
    if inserted then
      return (true,
        { t.setEntry ix fun m => { m with pendingOid := newOid, flags := m.flags ||| ofModifySent } with
          aux := update t.aux ix { t.aux ix with pendingPx := px, pendingQty := qty, modifySentNs := nowNs }
          byCur := cur })
    else return (false, t)

def dropPending (m : OotEntry) : OotEntry := { m with pendingOid := 0, flags := m.flags &&& ~~~ofModifySent }

def abortRename (t : Oot) (ix : Nat) : Option Oot :=
  if (t.e ix).pendingOid = 0 then some (t.setEntry ix dropPending)
  else do
    let (_, cur) ← t.byCur.remove (t.e ix).pendingOid (t.e ix).slot
    return { t.setEntry ix dropPending with
      aux := update t.aux ix { t.aux ix with abortedOid := (t.e ix).pendingOid }
      byCur := cur }

def confirmRename (t : Oot) (ix : Nat) : Option Oot :=
  if (t.e ix).pendingOid = 0 then some t
  else do
    let (_, cur) ← t.byCur.remove (t.e ix).currentOid (t.e ix).slot
    return { t.setEntry ix fun m =>
        { dropPending m with currentOid := m.pendingOid, px := (t.aux ix).pendingPx, qty := (t.aux ix).pendingQty } with
      byCur := cur }

def setInDoubt (t : Oot) (ix : Nat) : Oot :=
  if (t.e ix).state = .inDoubt then t
  else { t.setEntry ix fun m => { m with state := .inDoubt } with inDoubt := t.inDoubt + 1 }

def setLive (t : Oot) (ix : Nat) : Oot :=
  { t.setEntry ix fun m => { m with state := .live, flags := m.flags ||| ofAcked } with
    inDoubt := if (t.e ix).state = .inDoubt then t.inDoubt - 1 else t.inDoubt }

def remove (t : Oot) (ix : Nat) : Option Oot :=
  let e := t.e ix
  if e.state = .free then some t
  else do
    let (_, cid) ← t.byCid.remove e.cidOid e.slot
    let (_, cur) ← t.byCur.remove e.currentOid e.slot
    let cur ← if e.pendingOid = 0 then some cur else (cur.remove e.pendingOid e.slot).map Prod.snd
    return { t.setEntry ix fun _ => {} with
      free := ix :: t.free
      byCid := cid
      byCur := cur
      inDoubt := if e.state = .inDoubt then t.inDoubt - 1 else t.inDoubt }

end Oot

inductive OotOp where
  | insert (p : Placement)
  | addPending (ix : Nat) (newOid : UInt64) (px qty : Int) (nowNs : Nat)
  | abortRename (ix : Nat)
  | confirmRename (ix : Nat)
  | setInDoubt (ix : Nat)
  | setLive (ix : Nat)
  | remove (ix : Nat)
  deriving DecidableEq, Repr

namespace Oot

def apply (t : Oot) : OotOp → Option Oot
  | .insert p => (t.insert p).map Prod.snd
  | .addPending ix newOid px qty nowNs => (t.addPending ix newOid px qty nowNs).map Prod.snd
  | .abortRename ix => t.abortRename ix
  | .confirmRename ix => t.confirmRename ix
  | .setInDoubt ix => some (t.setInDoubt ix)
  | .setLive ix => some (t.setLive ix)
  | .remove ix => t.remove ix

/-- A modify goes out only for an open order without one in flight; the others are on open orders. -/
def allows (t : Oot) : OotOp → Bool
  | .insert _ => true
  | .addPending ix _ _ _ _ => t.isOpen ix && (t.e ix).pendingOid == 0
  | .abortRename ix | .confirmRename ix | .setInDoubt ix | .setLive ix | .remove ix => t.isOpen ix

/-- A run stops at an operation that does not end. -/
def step (t : Oot) (op : OotOp) : Oot := (t.apply op).getD t

end Oot

namespace IdIndex

section Index

variable {t : IdIndex} {oid : UInt64} {slot : UInt8} {ix : Nat}

/-- A well-formed index whose keys are among fewer than it has slots. -/
structure Indexes (t : IdIndex) (holds : IxSlot → Prop) (keys : Finset (UInt64 × UInt8)) : Prop where
  table : Probing ixCap IxSlot.home IxSlot.key t
  stored : ∀ x, Stored ixCap t x ↔ holds x
  known : ∀ x, holds x → x.key ∈ keys
  load : keys.card < ixCap

variable {holds : IxSlot → Prop} {keys : Finset (UInt64 × UInt8)}

theorem ixHome_lt (oid : UInt64) (slot : UInt8) : ixHome oid slot < ixCap := by
  unfold ixHome ixCap
  rw [Nat.shiftRight_eq_div_pow, Nat.div_lt_iff_lt_mul (by positivity)]
  exact UInt64.toNat_lt ..

theorem Indexes.room (indexes : Indexes t holds keys) : ∃ e < ixCap, t e = none :=
  indexes.table.room keys (fun x stored => indexes.known x ((indexes.stored x).mp stored)) indexes.load

theorem key_match (oid : UInt64) (slot : UInt8) (x y : IxSlot) (named : y.oid = oid ∧ y.slot = slot) :
    decide (x.oid = oid ∧ x.slot = slot) = true ↔ x.key = y.key := by
  rw [decide_eq_true_iff, IxSlot.key, IxSlot.key, Prod.mk.injEq, named.1, named.2]

section

variable (indexes : Indexes t holds keys)

include indexes

theorem Indexes.seek_hit (member : holds ⟨oid, slot, ix⟩) :
    ∃ i < ixCap, t.seek oid slot = .hit i ∧ t i = some ⟨oid, slot, ix⟩ := by
  obtain ⟨i, bound, here⟩ := (indexes.stored _).mpr member
  have found := indexes.table.probe_hit bound here fun x _ => key_match oid slot x ⟨oid, slot, ix⟩ ⟨rfl, rfl⟩
  exact ⟨i, bound, found, here⟩

theorem Indexes.seek_empty (absent : ∀ ix, ¬holds ⟨oid, slot, ix⟩) : ∃ i, t.seek oid slot = .empty i := by
  obtain ⟨e, room, free⟩ := indexes.room
  refine probe_empty (ixHome_lt oid slot) room free ?_
  rintro ⟨oid', slot', ix⟩ stored
  apply decide_eq_false
  rintro ⟨rfl, rfl⟩
  exact absent ix ((indexes.stored _).mp stored)

theorem Indexes.unique {ix' : Nat} (first : holds ⟨oid, slot, ix⟩) (second : holds ⟨oid, slot, ix'⟩) : ix = ix' := by
  obtain ⟨i, bound, here⟩ := (indexes.stored _).mpr first
  obtain ⟨j, bound', there⟩ := (indexes.stored _).mpr second
  have same := indexes.table.once i bound j bound' _ _ here there rfl
  rw [same, there] at here
  exact (IxSlot.mk.inj (Option.some.inj here)).2.2.symm

theorem Indexes.get (oid : UInt64) (slot : UInt8) :
    ∃ found, t.get oid slot = some found ∧ ∀ ix, found = some ix ↔ holds ⟨oid, slot, ix⟩ := by
  unfold IdIndex.get
  by_cases present : ∃ ix, holds ⟨oid, slot, ix⟩
  · obtain ⟨ix, member⟩ := present
    obtain ⟨i, -, landed, here⟩ := indexes.seek_hit member
    refine ⟨some ix, by rw [landed]; dsimp only; rw [here]; rfl, fun ix' => ?_⟩
    rw [Option.some.injEq]
    exact ⟨fun same => same ▸ member, fun other => indexes.unique member other⟩
  · push Not at present
    obtain ⟨i, landed⟩ := indexes.seek_empty present
    refine ⟨none, by rw [landed], fun ix' => ?_⟩
    simp only [reduceCtorEq, false_iff]
    exact present ix'

theorem Indexes.insert_present (member : holds ⟨oid, slot, ix⟩) (entry : Nat) :
    t.insert oid slot entry = some (false, t) := by
  obtain ⟨i, -, landed, -⟩ := indexes.seek_hit member
  unfold IdIndex.insert
  rw [landed]

theorem Indexes.insert (absent : ∀ ix, ¬holds ⟨oid, slot, ix⟩) (entry : Nat) :
    ∃ t' : IdIndex, t.insert oid slot entry = some (true, t') ∧ Probing ixCap IxSlot.home IxSlot.key t' ∧
      ∀ x, Stored ixCap t' x ↔ x = ⟨oid, slot, entry⟩ ∨ holds x := by
  obtain ⟨i, landed⟩ := indexes.seek_empty absent
  have new : ∀ x, Stored ixCap t x → x.key ≠ (⟨oid, slot, entry⟩ : IxSlot).key := by
    rintro ⟨oid', slot', ix⟩ stored same
    obtain ⟨rfl, rfl⟩ := Prod.mk.inj same
    exact absent ix ((indexes.stored _).mp stored)
  have start : IxSlot.home ⟨oid, slot, entry⟩ < ixCap := ixHome_lt oid slot
  have ended : probe ixCap t (fun x => decide (x.oid = oid ∧ x.slot = slot)) ixCap (IxSlot.home ⟨oid, slot, entry⟩) =
    .empty i := landed
  obtain ⟨table, bound, free⟩ := indexes.table.insert start ended new
  refine ⟨_, ?_, table, fun x => (stored_update bound free _ x).trans (or_congr Iff.rfl (indexes.stored x))⟩
  unfold IdIndex.insert
  rw [landed]

theorem Indexes.remove (member : holds ⟨oid, slot, ix⟩) :
    ∃ t' : IdIndex, t.remove oid slot = some (true, t') ∧ Indexes t' (fun x => holds x ∧ x ≠ ⟨oid, slot, ix⟩) keys := by
  obtain ⟨i, bound, landed, here⟩ := indexes.seek_hit member
  obtain ⟨e, room, free⟩ := indexes.room
  obtain ⟨ended, table, kept⟩ := indexes.table.delete bound here room free
  refine ⟨_, ?_, table, fun x => (kept x).trans (and_congr (indexes.stored x) Iff.rfl),
    fun x held => indexes.known x held.1, indexes.load⟩
  unfold IdIndex.remove
  rw [landed]
  dsimp only
  rw [if_pos ended]

end

end Index

end IdIndex

section Entries

variable {e : Nat → OotEntry} {ix : Nat} {v : OotEntry} {x : IxSlot}

def OpenAt (e : Nat → OotEntry) (ix : Nat) : Prop := ix < ootCap ∧ (e ix).state ≠ .free

def HoldsCid (e : Nat → OotEntry) (x : IxSlot) : Prop :=
  OpenAt e x.entry ∧ (e x.entry).slot = x.slot ∧ (e x.entry).cidOid = x.oid

/-- The order of an entry goes by an id now, or will once its modify is confirmed. -/
def HoldsCur (e : Nat → OotEntry) (x : IxSlot) : Prop :=
  OpenAt e x.entry ∧ (e x.entry).slot = x.slot ∧
    ((e x.entry).currentOid = x.oid ∨ ((e x.entry).pendingOid = x.oid ∧ x.oid ≠ 0))

def cidKeys (e : Nat → OotEntry) : Finset (UInt64 × UInt8) :=
  (range ootCap).image fun i => ((e i).cidOid, (e i).slot)

def curKeys (e : Nat → OotEntry) : Finset (UInt64 × UInt8) :=
  ((range ootCap).image fun i => ((e i).currentOid, (e i).slot)) ∪
    ((range ootCap).filter fun i => (e i).pendingOid ≠ 0).image fun i => ((e i).pendingOid, (e i).slot)

/-- Some entry has no modify in flight. -/
def Spare (e : Nat → OotEntry) : Prop := ∃ ix < ootCap, (e ix).pendingOid = 0

def doubts (e : Nat → OotEntry) : Nat := (range ootCap).sum fun i => if (e i).state = .inDoubt then 1 else 0

theorem cidKeys_card (e : Nat → OotEntry) : (cidKeys e).card < ixCap := by
  have := card_image_le (s := range ootCap) (f := fun i => ((e i).cidOid, (e i).slot))
  rw [card_range] at this
  unfold cidKeys
  rw [ixCap_eq]
  have := ootCap_pos
  omega

theorem curKeys_card (spare : Spare e) : (curKeys e).card < ixCap := by
  obtain ⟨ix, inside, none⟩ := spare
  have currents := card_image_le (s := range ootCap) (f := fun i => ((e i).currentOid, (e i).slot))
  have pendings := card_image_le (s := (range ootCap).filter fun i => (e i).pendingOid ≠ 0)
    (f := fun i => ((e i).pendingOid, (e i).slot))
  have fewer : ((range ootCap).filter fun i => (e i).pendingOid ≠ 0).card < (range ootCap).card := by
    apply card_lt_card
    refine filter_ssubset.mpr ⟨ix, mem_range.mpr inside, ?_⟩
    exact fun some_pending => some_pending none
  have total := card_union_le ((range ootCap).image fun i => ((e i).currentOid, (e i).slot))
    (((range ootCap).filter fun i => (e i).pendingOid ≠ 0).image fun i => ((e i).pendingOid, (e i).slot))
  rw [card_range] at currents fewer
  unfold curKeys
  rw [ixCap_eq]
  omega

theorem HoldsCid.known (held : HoldsCid e x) : x.key ∈ cidKeys e := by
  obtain ⟨⟨inside, -⟩, slot, oid⟩ := held
  refine mem_image.mpr ⟨x.entry, mem_range.mpr inside, ?_⟩
  rw [slot, oid]
  rfl

theorem HoldsCur.known (held : HoldsCur e x) : x.key ∈ curKeys e := by
  obtain ⟨⟨inside, -⟩, slot, current | ⟨pending, some_pending⟩⟩ := held
  · refine mem_union_left _ (mem_image.mpr ⟨x.entry, mem_range.mpr inside, ?_⟩)
    rw [slot, current]
    rfl
  · refine mem_union_right _ (mem_image.mpr ⟨x.entry, ?_, ?_⟩)
    · refine mem_filter.mpr ⟨mem_range.mpr inside, ?_⟩
      rwa [pending]
    · rw [slot, pending]
      rfl

theorem doubts_update (inside : ix < ootCap) :
    doubts (update e ix v) + (if (e ix).state = .inDoubt then 1 else 0) =
      doubts e + if v.state = .inDoubt then 1 else 0 := by
  have member : ix ∈ range ootCap := mem_range.mpr inside
  have others : ∀ i ∈ (range ootCap).erase ix,
      (if (update e ix v i).state = .inDoubt then 1 else 0) = if (e i).state = .inDoubt then 1 else 0 := by
    intro i at_
    rw [update_of_ne (ne_of_mem_erase at_)]
  unfold doubts
  rw [← add_sum_erase _ _ member, ← add_sum_erase (range ootCap) (fun i => if (e i).state = _ then 1 else 0) member,
    sum_congr rfl others, update_self]
  omega

/-- An open entry of the slot goes by an id, in the sense of `names`. -/
def Holds (names : OotEntry → UInt64 → Prop) (e : Nat → OotEntry) (x : IxSlot) : Prop :=
  OpenAt e x.entry ∧ (e x.entry).slot = x.slot ∧ names (e x.entry) x.oid

def cidNames (v : OotEntry) (oid : UInt64) : Prop := v.cidOid = oid

def curNames (v : OotEntry) (oid : UInt64) : Prop := v.currentOid = oid ∨ (v.pendingOid = oid ∧ oid ≠ 0)

theorem holds_update (names : OotEntry → UInt64 → Prop) (other : x.entry ≠ ix) :
    Holds names (update e ix v) x ↔ Holds names e x := by
  unfold Holds OpenAt
  rw [update_of_ne other]

end Entries

end TradingEngine.Venue
