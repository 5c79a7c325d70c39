import TradingEngine.Venue.OpenOrders

/-!
# The open-order table stays sound

Each operation on a sound table with a spare entry ends and leaves the table sound.
-/

namespace TradingEngine.Venue
open Base Function List Option Oot

variable {e : Nat → OotEntry} {ix : Nat} {v : OotEntry}

/-- A table: both indexes hold exactly the ids of the open orders, the free list the other entries, and the count
of orders in doubt is right. -/
structure Sound (t : Oot) : Prop where
  cid : Probing ixCap IxSlot.home IxSlot.key t.byCid
  cidStored : ∀ x, Stored ixCap t.byCid x ↔ HoldsCid t.e x
  cur : Probing ixCap IxSlot.home IxSlot.key t.byCur
  curStored : ∀ x, Stored ixCap t.byCur x ↔ HoldsCur t.e x
  apart : ∀ ix, (t.e ix).pendingOid ≠ 0 → (t.e ix).pendingOid ≠ (t.e ix).currentOid
  blank : ∀ ix, (t.e ix).state = .free → (t.e ix).pendingOid = 0
  freeNodup : t.free.Nodup
  freeMem : ∀ ix, ix ∈ t.free ↔ ix < ootCap ∧ (t.e ix).state = .free
  doubt : t.inDoubt = doubts t.e

namespace Sound

variable {t : Oot}

theorem new : Sound Oot.new := by
  have none (names : OotEntry → UInt64 → Prop) (x : IxSlot) :
      Stored ixCap (fun _ => none) x ↔ Holds names Oot.new.e x := by
    refine iff_of_false ?_ fun held => held.1.2 rfl
    rintro ⟨i, -, here⟩
    cases here
  refine ⟨Probing.empty .., none cidNames, Probing.empty .., none curNames, fun _ none => absurd rfl none,
    fun _ _ => rfl, nodup_range, ?_, ?_⟩
  · intro ix
    exact mem_range.trans ⟨fun inside => ⟨inside, rfl⟩, And.left⟩
  · exact (Finset.sum_eq_zero fun _ _ => rfl).symm

theorem cidIndexes (sound : Sound t) : t.byCid.Indexes (HoldsCid t.e) (cidKeys t.e) :=
  ⟨sound.cid, sound.cidStored, fun _ held => held.known, cidKeys_card t.e⟩

theorem curIndexes (sound : Sound t) (spare : Spare t.e) : t.byCur.Indexes (HoldsCur t.e) (curKeys t.e) :=
  ⟨sound.cur, sound.curStored, fun _ held => held.known, curKeys_card spare⟩

section Names

variable (names : OotEntry → UInt64 → Prop)

theorem holds_changed {P : UInt64 → Prop} (state : v.state = .free ↔ (e ix).state = .free)
    (slot : v.slot = (e ix).slot) (ids : ∀ oid, names v oid ↔ names (e ix) oid ∧ P oid) (x : IxSlot) :
    Holds names (update e ix v) x ↔ Holds names e x ∧ (x.entry = ix → P x.oid) := by
  by_cases other : x.entry = ix
  · unfold Holds OpenAt
    rw [other, update_self, ne_eq, state, slot, ids]
    tauto
  · rw [holds_update names other]
    exact ⟨fun held => ⟨held, fun same => absurd same other⟩, And.left⟩

theorem holds_same (state : v.state = .free ↔ (e ix).state = .free) (slot : v.slot = (e ix).slot)
    (ids : ∀ oid, names v oid ↔ names (e ix) oid) (x : IxSlot) : Holds names (update e ix v) x ↔ Holds names e x := by
  rw [holds_changed names (P := fun _ => True) state slot fun oid => by rw [ids, and_true]]
  exact and_iff_left fun _ => trivial

theorem holds_opened {p : Placement} (placed : ∀ oid, names (opened p) oid ↔ p.clientOid = oid) (inside : ix < ootCap)
    (closed : (e ix).state = .free) (x : IxSlot) :
    Holds names (update e ix (opened p)) x ↔ x = ⟨p.clientOid, p.slot, ix⟩ ∨ Holds names e x := by
  obtain ⟨oid, slot, entry⟩ := x
  by_cases own : entry = ix
  · subst own
    rw [or_iff_left fun held => held.1.2 closed]
    unfold Holds OpenAt
    dsimp only
    rw [update_self, placed]
    constructor
    · rintro ⟨-, rfl, rfl⟩
      rfl
    · rintro ⟨⟩
      exact ⟨⟨inside, by simp [opened]⟩, rfl, rfl⟩
  · rw [holds_update names own, or_iff_right fun same => own (congrArg IxSlot.entry same)]

theorem holds_closed (x : IxSlot) : Holds names (update e ix {}) x ↔ Holds names e x ∧ x.entry ≠ ix := by
  by_cases own : x.entry = ix
  · refine iff_of_false ?_ fun held => held.2 own
    rintro ⟨⟨-, state⟩, -⟩
    rw [own, update_self] at state
    exact state rfl
  · rw [holds_update names own, and_iff_left own]

theorem left_out {oid : UInt64} {x : IxSlot} (slotted : (e x.entry).slot = x.slot) :
    (x.entry = ix → x.oid ≠ oid) ↔ x ≠ ⟨oid, (e ix).slot, ix⟩ := by
  obtain ⟨oid', slot', entry⟩ := x
  constructor
  · rintro differs ⟨⟩
    exact differs rfl rfl
  · rintro differs rfl rfl
    exact differs (by rw [IxSlot.mk.injEq]; exact ⟨rfl, slotted.symm, rfl⟩)

end Names

theorem curNames_idle (idle : v.pendingOid = 0) (oid : UInt64) : curNames v oid ↔ v.currentOid = oid := by
  refine or_iff_left fun ⟨pending, nonzero⟩ => nonzero ?_
  rw [← pending, idle]

theorem free_update {t : Oot} (sound : Sound t) (state : v.state = .free ↔ (t.e ix).state = .free)
    (i : Nat) : i ∈ t.free ↔ i < ootCap ∧ (update t.e ix v i).state = .free := by
  by_cases same : i = ix
  · rw [same, update_self, state]
    exact sound.freeMem ix
  · rw [update_of_ne same]
    exact sound.freeMem i

theorem apart_update (sound : Sound t) (new : v.pendingOid ≠ 0 → v.pendingOid ≠ v.currentOid) :
    ∀ i, (update t.e ix v i).pendingOid ≠ 0 → (update t.e ix v i).pendingOid ≠ (update t.e ix v i).currentOid :=
  (forall_update_iff t.e (p := fun _ m => m.pendingOid ≠ 0 → m.pendingOid ≠ m.currentOid)).mpr
    ⟨new, fun i _ => sound.apart i⟩

theorem blank_update (sound : Sound t) (new : v.state = .free → v.pendingOid = 0) :
    ∀ i, (update t.e ix v i).state = .free → (update t.e ix v i).pendingOid = 0 :=
  (forall_update_iff t.e (p := fun _ m => m.state = .free → m.pendingOid = 0)).mpr
    ⟨new, fun i _ => sound.blank i⟩

theorem changed (sound : Sound t) (opened : OpenAt t.e ix) {aux : Nat → OotAux} {cur : IdIndex}
    (state : v.state ≠ .free) (slot : v.slot = (t.e ix).slot) (oid : v.cidOid = (t.e ix).cidOid)
    (table : Probing ixCap IxSlot.home IxSlot.key cur)
    (stored : ∀ x, Stored ixCap cur x ↔ HoldsCur (update t.e ix v) x)
    (apart : v.pendingOid ≠ 0 → v.pendingOid ≠ v.currentOid) {n : Nat}
    (doubt : n + (if (t.e ix).state = .inDoubt then 1 else 0) = t.inDoubt + if v.state = .inDoubt then 1 else 0) :
    Sound ⟨update t.e ix v, aux, t.free, t.byCid, cur, n⟩ := by
  have same : v.state = .free ↔ (t.e ix).state = .free := ⟨fun free => absurd free state, fun free => absurd free opened.2⟩
  refine ⟨sound.cid, fun x => (sound.cidStored x).trans (holds_same cidNames same slot (fun _ => by rw [cidNames, oid, cidNames]) x).symm, table, stored,
    apart_update sound apart, blank_update sound fun free => absurd free state, sound.freeNodup, free_update sound same, ?_⟩
  have counted := doubts_update (e := t.e) (v := v) opened.1
  have before := sound.doubt
  dsimp only
  omega

theorem insert_full (none : t.free = []) (p : Placement) : t.insert p = some (.error .full, t) := by
  unfold Oot.insert
  rw [none]

theorem insert_duplicate (sound : Sound t) (spare : Spare t.e) (some_free : t.free ≠ []) {p : Placement}
    (taken : ∃ ix, HoldsCid t.e ⟨p.clientOid, p.slot, ix⟩ ∨ HoldsCur t.e ⟨p.clientOid, p.slot, ix⟩) :
    t.insert p = some (.error .duplicate, t) := by
  obtain ⟨cid, cidGot, cidSpec⟩ := sound.cidIndexes.get p.clientOid p.slot
  obtain ⟨cur, curGot, curSpec⟩ := (sound.curIndexes spare).get p.clientOid p.slot
  unfold Oot.insert
  cases free : t.free with
  | nil => exact absurd free some_free
  | cons ix rest =>
    simp only [cidGot, curGot, bind_eq_bind, bind_some]
    cases cid with
    | some found => rfl
    | none =>
      cases cur with
      | some found => rfl
      | none =>
        obtain ⟨ix, placed | current⟩ := taken
        · cases (cidSpec ix).mpr placed
        · cases (curSpec ix).mpr current

theorem insert_ok (sound : Sound t) (spare : Spare t.e) {p : Placement} {rest : List Nat} (free : t.free = ix :: rest)
    (new : ∀ ix, ¬HoldsCid t.e ⟨p.clientOid, p.slot, ix⟩ ∧ ¬HoldsCur t.e ⟨p.clientOid, p.slot, ix⟩) :
    ∃ t', t.insert p = some (.ok ix, t') ∧ Sound t' ∧ t'.e = update t.e ix (Oot.opened p) ∧ t'.free = rest := by
  obtain ⟨cid, cidGot, cidSpec⟩ := sound.cidIndexes.get p.clientOid p.slot
  obtain ⟨cur, curGot, curSpec⟩ := (sound.curIndexes spare).get p.clientOid p.slot
  obtain rfl : cid = none := eq_none_iff_forall_ne_some.mpr fun i found => (new i).1 ((cidSpec i).mp found)
  obtain rfl : cur = none := eq_none_iff_forall_ne_some.mpr fun i found => (new i).2 ((curSpec i).mp found)
  obtain ⟨byCid, cidIn, cidTable, cidStored⟩ := sound.cidIndexes.insert (fun i => (new i).1) ix
  obtain ⟨byCur, curIn, curTable, curStored⟩ := (sound.curIndexes spare).insert (fun i => (new i).2) ix
  obtain ⟨inside, closed⟩ := (sound.freeMem ix).mp (by rw [free]; exact mem_cons_self)
  have nodup := sound.freeNodup
  rw [free, nodup_cons] at nodup
  refine ⟨⟨update t.e ix (opened p), update t.aux ix { placedNs := p.nowNs, gen := (t.aux ix).gen + 1 },
    rest, byCid, byCur, t.inDoubt⟩, ?_, ⟨cidTable, ?_, curTable, ?_, apart_update sound fun none => absurd rfl none,
    blank_update sound fun _ => rfl, nodup.2, ?_, ?_⟩, rfl, rfl⟩
  · unfold Oot.insert
    rw [free]
    simp only [cidGot, curGot, cidIn, curIn, bind_eq_bind, bind_some, isSome_none, Bool.false_eq_true, if_false]
    rfl
  · exact fun x => (cidStored x).trans (holds_opened cidNames (fun _ => Iff.rfl) inside closed x).symm
  · exact fun x => (curStored x).trans (holds_opened curNames (curNames_idle rfl) inside closed x).symm
  · intro i
    have member := sound.freeMem i
    rw [free, mem_cons] at member
    dsimp only
    by_cases own : i = ix
    · rw [own, update_self]
      exact ⟨fun again => absurd again nodup.1, fun ⟨_, open_⟩ => by cases open_⟩
    · rw [update_of_ne own, ← member]
      exact ⟨.inr, fun either => either.resolve_left own⟩
  · have counted := doubts_update (e := t.e) (v := opened p) inside
    have before := sound.doubt
    rw [closed] at counted
    simpa [opened, ← before] using counted.symm

theorem holdsCur_reserved {oid : UInt64} (opened : OpenAt e ix) (free : (e ix).pendingOid = 0) (some_id : oid ≠ 0)
    (new : v = { e ix with pendingOid := oid, flags := (e ix).flags ||| ofModifySent }) (x : IxSlot) :
    HoldsCur (update e ix v) x ↔ x = ⟨oid, (e ix).slot, ix⟩ ∨ HoldsCur e x := by
  obtain ⟨oid', slot, entry⟩ := x
  by_cases own : entry = ix
  · subst own
    unfold HoldsCur OpenAt
    dsimp only
    rw [update_self, new, free]
    dsimp only
    constructor
    · rintro ⟨⟨inside, here⟩, rfl, current | ⟨rfl, -⟩⟩
      · exact .inr ⟨⟨inside, here⟩, rfl, .inl current⟩
      · exact .inl rfl
    · rintro (⟨⟨⟩⟩ | ⟨here, rfl, current | ⟨rfl, nonzero⟩⟩)
      · exact ⟨opened, rfl, .inr ⟨rfl, some_id⟩⟩
      · exact ⟨here, rfl, .inl current⟩
      · exact absurd rfl nonzero
  · rw [or_iff_right fun same => own (congrArg IxSlot.entry same)]
    exact holds_update curNames own

theorem addPending_ok (sound : Sound t) (spare : Spare t.e) (opened : OpenAt t.e ix)
    (idle : (t.e ix).pendingOid = 0) {newOid : UInt64} (some_id : newOid ≠ 0)
    (new : ∀ i, ¬HoldsCur t.e ⟨newOid, (t.e ix).slot, i⟩) (px qty : Int) (nowNs : Nat) :
    ∃ t', t.addPending ix newOid px qty nowNs = some (true, t') ∧ Sound t' ∧
      t'.e = update t.e ix { t.e ix with pendingOid := newOid, flags := (t.e ix).flags ||| ofModifySent } := by
  unfold addPending
  rw [if_neg some_id]
  obtain ⟨cur, inserted, table, stored⟩ := (sound.curIndexes spare).insert new ix
  rw [inserted]
  refine ⟨_, rfl, ?_, rfl⟩
  refine changed (v := { t.e ix with pendingOid := newOid, flags := (t.e ix).flags ||| ofModifySent }) sound opened
    opened.2 rfl rfl table ?_ (fun _ same => ?_) rfl
  · exact fun x => (stored x).trans (holdsCur_reserved opened idle some_id rfl x).symm
  · exact new ix ⟨opened, rfl, .inl same.symm⟩

theorem addPending (sound : Sound t) (spare : Spare t.e) (opened : OpenAt t.e ix)
    (idle : (t.e ix).pendingOid = 0) (newOid : UInt64) (px qty : Int) (nowNs : Nat) :
    ∃ done t', t.addPending ix newOid px qty nowNs = some (done, t') ∧ Sound t' := by
  by_cases zero : newOid = 0
  · refine ⟨false, t, ?_, sound⟩
    unfold Oot.addPending
    rw [if_pos zero]
  by_cases taken : ∃ i, HoldsCur t.e ⟨newOid, (t.e ix).slot, i⟩
  · obtain ⟨i, held⟩ := taken
    refine ⟨false, t, ?_, sound⟩
    unfold Oot.addPending
    rw [if_neg zero, (sound.curIndexes spare).insert_present held]
    rfl
  · push Not at taken
    obtain ⟨t', added, kept, -⟩ := addPending_ok sound spare opened idle zero taken px qty nowNs
    exact ⟨true, t', added, kept⟩

theorem holdsCur_dropped (apart : (e ix).pendingOid ≠ 0 → (e ix).pendingOid ≠ (e ix).currentOid) (x : IxSlot) :
    HoldsCur (update e ix (Oot.dropPending (e ix))) x ↔
      HoldsCur e x ∧ ((e ix).pendingOid ≠ 0 → x ≠ ⟨(e ix).pendingOid, (e ix).slot, ix⟩) := by
  refine (holds_changed (v := dropPending (e ix)) curNames (P := fun oid => (e ix).pendingOid ≠ 0 → oid ≠ (e ix).pendingOid)
    Iff.rfl rfl (fun oid => ?_) x).trans (and_congr_right fun held =>
      ⟨fun differs pending => (left_out held.2.1).mp fun own => differs own pending,
        fun differs own pending => (left_out held.2.1).mpr (differs pending) own⟩)
  rw [curNames_idle rfl]
  constructor
  · rintro rfl
    exact ⟨.inl rfl, fun pending => (apart pending).symm⟩
  · rintro ⟨rfl | ⟨rfl, nonzero⟩, differs⟩
    · rfl
    · exact absurd rfl (differs nonzero)

theorem abortRename (sound : Sound t) (spare : Spare t.e) (opened : OpenAt t.e ix) :
    ∃ t', t.abortRename ix = some t' ∧ Sound t' := by
  unfold Oot.abortRename
  have dropped := holdsCur_dropped (sound.apart ix)
  by_cases idle : (t.e ix).pendingOid = 0
  · rw [if_pos idle]
    refine ⟨_, rfl, changed (v := dropPending (t.e ix)) sound opened opened.2 rfl rfl sound.cur (fun x => ?_)
      (fun some_id => absurd rfl some_id) rfl⟩
    rw [sound.curStored, dropped]
    exact (and_iff_left fun pending => absurd idle pending).symm
  · rw [if_neg idle]
    have held : HoldsCur t.e ⟨(t.e ix).pendingOid, (t.e ix).slot, ix⟩ := ⟨opened, rfl, .inr ⟨rfl, idle⟩⟩
    obtain ⟨cur, removed, indexes⟩ := (sound.curIndexes spare).remove held
    rw [removed]
    refine ⟨_, rfl, changed (v := dropPending (t.e ix)) sound opened opened.2 rfl rfl indexes.table (fun x => ?_)
      (fun some_id => absurd rfl some_id) rfl⟩
    rw [indexes.stored, dropped]
    exact and_congr_right fun _ => ⟨fun differs _ => differs, fun differs => differs idle⟩

theorem holdsCur_renamed (pending : (e ix).pendingOid ≠ 0)
    (apart : (e ix).pendingOid ≠ (e ix).currentOid) (state : v.state = (e ix).state) (slot : v.slot = (e ix).slot)
    (current : v.currentOid = (e ix).pendingOid) (idle : v.pendingOid = 0) (x : IxSlot) :
    HoldsCur (update e ix v) x ↔ HoldsCur e x ∧ x ≠ ⟨(e ix).currentOid, (e ix).slot, ix⟩ := by
  refine (holds_changed curNames (P := fun oid => oid ≠ (e ix).currentOid) (by rw [state]) slot (fun oid => ?_) x).trans
    (and_congr_right fun held => left_out held.2.1)
  rw [curNames_idle idle, current]
  constructor
  · rintro rfl
    exact ⟨.inr ⟨rfl, pending⟩, apart⟩
  · rintro ⟨rfl | ⟨rfl, -⟩, differs⟩
    · exact absurd rfl differs
    · rfl

theorem confirmRename (sound : Sound t) (spare : Spare t.e) (opened : OpenAt t.e ix) :
    ∃ t', t.confirmRename ix = some t' ∧ Sound t' := by
  unfold Oot.confirmRename
  by_cases idle : (t.e ix).pendingOid = 0
  · rw [if_pos idle]
    exact ⟨t, rfl, sound⟩
  rw [if_neg idle]
  have held : HoldsCur t.e ⟨(t.e ix).currentOid, (t.e ix).slot, ix⟩ := ⟨opened, rfl, .inl rfl⟩
  obtain ⟨cur, removed, indexes⟩ := (sound.curIndexes spare).remove held
  rw [removed]
  let renamed : OotEntry := { dropPending (t.e ix) with
    currentOid := (t.e ix).pendingOid, px := (t.aux ix).pendingPx, qty := (t.aux ix).pendingQty }
  refine ⟨_, rfl, changed (v := renamed) sound opened opened.2 rfl rfl indexes.table (fun x => ?_)
    (fun some_id => absurd rfl some_id) rfl⟩
  exact (indexes.stored x).trans (holdsCur_renamed (v := renamed) idle (sound.apart ix idle) rfl rfl rfl rfl x).symm

theorem holdsCur_marked (opened : OpenAt e ix) (state : v.state ≠ .free)
    (slot : v.slot = (e ix).slot) (current : v.currentOid = (e ix).currentOid) (pending : v.pendingOid = (e ix).pendingOid)
    (x : IxSlot) : HoldsCur (update e ix v) x ↔ HoldsCur e x :=
  holds_same curNames (iff_of_false state opened.2) slot (fun _ => by rw [curNames, current, pending, curNames]) x

theorem setInDoubt (sound : Sound t) (opened : OpenAt t.e ix) : Sound (t.setInDoubt ix) := by
  unfold Oot.setInDoubt
  by_cases already : (t.e ix).state = .inDoubt
  · rw [if_pos already]
    exact sound
  rw [if_neg already]
  let doubted : OotEntry := { t.e ix with state := .inDoubt }
  refine changed (v := doubted) sound opened (by simp [doubted]) rfl rfl sound.cur (fun x => ?_) (sound.apart ix) ?_
  · exact (sound.curStored x).trans (holdsCur_marked (v := doubted) opened (by simp [doubted]) rfl rfl rfl x).symm
  · rw [if_neg already, if_pos rfl]

theorem inDoubt_pos (sound : Sound t) (inside : ix < ootCap) (doubted : (t.e ix).state = .inDoubt) : 0 < t.inDoubt := by
  have counted := doubts_update (e := t.e) (v := {}) inside
  rw [if_pos doubted, if_neg (by decide), ← sound.doubt] at counted
  omega

theorem inDoubt_less (sound : Sound t) (inside : ix < ootCap) :
    (if (t.e ix).state = .inDoubt then t.inDoubt - 1 else t.inDoubt) + (if (t.e ix).state = .inDoubt then 1 else 0) =
      t.inDoubt := by
  by_cases doubted : (t.e ix).state = .inDoubt
  · rw [if_pos doubted, if_pos doubted]
    exact Nat.sub_add_cancel (inDoubt_pos sound inside doubted)
  · rw [if_neg doubted, if_neg doubted, Nat.add_zero]

theorem setLive (sound : Sound t) (opened : OpenAt t.e ix) : Sound (t.setLive ix) := by
  unfold Oot.setLive
  let live : OotEntry := { t.e ix with state := .live, flags := (t.e ix).flags ||| ofAcked }
  refine changed (v := live) sound opened (by simp [live]) rfl rfl sound.cur (fun x => ?_) (sound.apart ix) ?_
  · exact (sound.curStored x).trans (holdsCur_marked (v := live) opened (by simp [live]) rfl rfl rfl x).symm
  · exact inDoubt_less sound opened.1

theorem holdsCid_closed (x : IxSlot) :
    HoldsCid (update e ix {}) x ↔ HoldsCid e x ∧ x ≠ ⟨(e ix).cidOid, (e ix).slot, ix⟩ := by
  refine (holds_closed cidNames x).trans (and_congr_right fun held => ?_)
  rw [← left_out held.2.1]
  refine forall_congr' fun own => iff_of_false id fun differs => differs ?_
  rw [← own]
  exact held.2.2.symm

theorem holdsCur_closed (x : IxSlot) :
    HoldsCur (update e ix {}) x ↔ (HoldsCur e x ∧ x ≠ ⟨(e ix).currentOid, (e ix).slot, ix⟩) ∧
      ((e ix).pendingOid ≠ 0 → x ≠ ⟨(e ix).pendingOid, (e ix).slot, ix⟩) := by
  refine (holds_closed curNames x).trans ?_
  rw [and_assoc]
  refine and_congr_right fun held => ?_
  rw [← left_out held.2.1, ← left_out held.2.1]
  constructor
  · exact fun other => ⟨fun own => absurd own other, fun _ own => absurd own other⟩
  · rintro ⟨differs, apart⟩ rfl
    obtain current | ⟨pending, nonzero⟩ := held.2.2
    · exact differs rfl current.symm
    · exact apart (by rwa [pending]) rfl pending.symm

theorem remove_free (sound : Sound t) (opened : OpenAt t.e ix) (i : Nat) :
    i ∈ ix :: t.free ↔ i < ootCap ∧ (update t.e ix {} i).state = .free := by
  rw [mem_cons, sound.freeMem i]
  by_cases own : i = ix
  · rw [own, update_self]
    exact iff_of_true (.inl rfl) ⟨opened.1, rfl⟩
  · rw [update_of_ne own, or_iff_right own]

theorem closed (sound : Sound t) (opened : OpenAt t.e ix) {cid cur : IdIndex}
    (cidTable : Probing ixCap IxSlot.home IxSlot.key cid)
    (cidStored : ∀ x, Stored ixCap cid x ↔ HoldsCid (update t.e ix {}) x)
    (curTable : Probing ixCap IxSlot.home IxSlot.key cur)
    (curStored : ∀ x, Stored ixCap cur x ↔ HoldsCur (update t.e ix {}) x) :
    Sound ⟨update t.e ix {}, t.aux, ix :: t.free, cid, cur,
      if (t.e ix).state = .inDoubt then t.inDoubt - 1 else t.inDoubt⟩ := by
  refine ⟨cidTable, cidStored, curTable, curStored, apart_update sound fun none => absurd rfl none,
    blank_update sound fun _ => rfl, ?_, remove_free sound opened, ?_⟩
  · exact nodup_cons.mpr ⟨fun again => opened.2 ((sound.freeMem ix).mp again).2, sound.freeNodup⟩
  have counted : doubts (update t.e ix {}) + (if (t.e ix).state = .inDoubt then 1 else 0) = t.inDoubt := by
    rw [doubts_update opened.1, sound.doubt]
    rfl
  exact Nat.add_right_cancel ((inDoubt_less sound opened.1).trans counted.symm)

theorem remove (sound : Sound t) (spare : Spare t.e) (opened : OpenAt t.e ix) :
    ∃ t', t.remove ix = some t' ∧ Sound t' := by
  unfold Oot.remove
  dsimp only
  rw [if_neg opened.2]
  have heldCid : HoldsCid t.e ⟨(t.e ix).cidOid, (t.e ix).slot, ix⟩ := ⟨opened, rfl, rfl⟩
  have heldCur : HoldsCur t.e ⟨(t.e ix).currentOid, (t.e ix).slot, ix⟩ := ⟨opened, rfl, .inl rfl⟩
  obtain ⟨cid, cidRemoved, cidIndexes⟩ := sound.cidIndexes.remove heldCid
  obtain ⟨cur, curRemoved, curIndexes⟩ := (sound.curIndexes spare).remove heldCur
  have cidStored : ∀ x, Stored ixCap cid x ↔ HoldsCid (update t.e ix {}) x :=
    fun x => (cidIndexes.stored x).trans (holdsCid_closed x).symm
  rw [cidRemoved, curRemoved]
  dsimp only [bind_eq_bind, bind_some]
  by_cases idle : (t.e ix).pendingOid = 0
  · rw [if_pos idle]
    refine ⟨_, rfl, closed sound opened cidIndexes.table cidStored curIndexes.table fun x => ?_⟩
    rw [curIndexes.stored, holdsCur_closed]
    exact (and_iff_left fun pending => absurd idle pending).symm
  · rw [if_neg idle]
    -- the id of the modify in flight leaves the index after the current one
    have pendingHeld : HoldsCur t.e ⟨(t.e ix).pendingOid, (t.e ix).slot, ix⟩ ∧
        (⟨(t.e ix).pendingOid, (t.e ix).slot, ix⟩ : IxSlot) ≠ ⟨(t.e ix).currentOid, (t.e ix).slot, ix⟩ :=
      ⟨⟨opened, rfl, .inr ⟨rfl, idle⟩⟩, fun same => sound.apart ix idle (congrArg IxSlot.oid same)⟩
    obtain ⟨last, lastRemoved, lastIndexes⟩ := curIndexes.remove pendingHeld
    rw [lastRemoved]
    refine ⟨_, rfl, closed sound opened cidIndexes.table cidStored lastIndexes.table fun x => ?_⟩
    rw [lastIndexes.stored, holdsCur_closed]
    exact and_congr_right fun _ => ⟨fun differs _ => differs, fun differs => differs idle⟩

theorem isOpen_iff : t.isOpen ix = true ↔ OpenAt t.e ix := by
  unfold isOpen OpenAt
  rw [Bool.and_eq_true, decide_eq_true_iff, bne_iff_ne]

theorem insert (sound : Sound t) (spare : Spare t.e) (p : Placement) :
    ∃ result t', t.insert p = some (result, t') ∧ Sound t' := by
  cases free : t.free with
  | nil => exact ⟨_, t, insert_full free p, sound⟩
  | cons ix rest =>
    by_cases taken : ∃ ix, HoldsCid t.e ⟨p.clientOid, p.slot, ix⟩ ∨ HoldsCur t.e ⟨p.clientOid, p.slot, ix⟩
    · exact ⟨_, t, insert_duplicate sound spare (by rw [free]; exact cons_ne_nil ix rest) taken, sound⟩
    · push Not at taken
      obtain ⟨t', inserted, kept, -⟩ := insert_ok sound spare free taken
      exact ⟨_, t', inserted, kept⟩

theorem apply (sound : Sound t) (spare : Spare t.e) {op : OotOp} (allowed : t.allows op = true) :
    ∃ t', t.apply op = some t' ∧ Sound t' := by
  cases op with
  | insert p =>
    obtain ⟨result, t', inserted, kept⟩ := insert sound spare p
    refine ⟨t', ?_, kept⟩
    rw [Oot.apply, inserted]
    rfl
  | addPending ix newOid px qty nowNs =>
    obtain ⟨opened, idle⟩ := (Bool.and_eq_true _ _).mp allowed
    obtain ⟨done, t', added, kept⟩ := addPending sound spare (isOpen_iff.mp opened) (beq_iff_eq.mp idle) newOid px qty nowNs
    refine ⟨t', ?_, kept⟩
    rw [Oot.apply, added]
    rfl
  | abortRename ix => exact abortRename sound spare (isOpen_iff.mp allowed)
  | confirmRename ix => exact confirmRename sound spare (isOpen_iff.mp allowed)
  | setInDoubt ix => exact ⟨_, rfl, setInDoubt sound (isOpen_iff.mp allowed)⟩
  | setLive ix => exact ⟨_, rfl, setLive sound (isOpen_iff.mp allowed)⟩
  | remove ix => exact remove sound spare (isOpen_iff.mp allowed)

theorem step (sound : Sound t) (spare : Spare t.e) {op : OotOp} (allowed : t.allows op = true) : Sound (t.step op) := by
  obtain ⟨t', applied, kept⟩ := apply sound spare allowed
  rw [Oot.step, applied]
  exact kept

theorem along {ops : List OotOp} (allowed : Along Oot.step (fun t op => t.allows op = true ∧ Spare t.e) t ops)
    (sound : Sound t) : Along Oot.step (fun t op => (t.apply op).isSome) t ops ∧ Sound (run Oot.step t ops) := by
  constructor
  · refine along_invariant sound (fun t op ok sound => ?_) allowed
    obtain ⟨t', applied, -⟩ := apply sound ok.2 ok.1
    exact ⟨by rw [applied]; rfl, step sound ok.2 ok.1⟩
  · exact run_invariant_along sound (fun t op ok sound => step sound ok.2 ok.1) allowed

end Sound

end TradingEngine.Venue
