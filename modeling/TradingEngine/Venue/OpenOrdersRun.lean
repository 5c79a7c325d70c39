import TradingEngine.Venue.OpenOrdersSound

/-!
# Runs of the open-order table

What the table answers after any run, and the run after which a lookup does not end.
-/

namespace TradingEngine.Venue
open Base List

def openOrders (t : Oot) : Finset Nat := (Finset.range ootCap).filter fun ix => (t.e ix).state ≠ .free

theorem mem_openOrders {t : Oot} {ix : Nat} : ix ∈ openOrders t ↔ OpenAt t.e ix := by
  unfold openOrders OpenAt
  rw [Finset.mem_filter, Finset.mem_range]

/-- What the table answers, against the orders that are open. -/
structure Exact (t : Oot) : Prop where
  ends : ∀ op, t.allows op = true → (t.apply op).isSome
  placement : ∀ slot oid, ∃ found, t.byPlacement slot oid = some found ∧
    ∀ ix, found = some ix ↔ ix ∈ openOrders t ∧ (t.e ix).slot = slot ∧ (t.e ix).cidOid = oid
  current : ∀ slot oid, ∃ found, t.byCurrent slot oid = some found ∧
    ∀ ix, found = some ix ↔ ix ∈ openOrders t ∧ (t.e ix).slot = slot ∧
      ((t.e ix).currentOid = oid ∨ ((t.e ix).pendingOid = oid ∧ oid ≠ 0))
  refused : ∀ p, (∃ err t', t.insert p = some (.error err, t')) ↔
    (openOrders t).card = ootCap ∨ ∃ ix ∈ openOrders t, (t.e ix).slot = p.slot ∧
      ((t.e ix).cidOid = p.clientOid ∨ (t.e ix).currentOid = p.clientOid ∨
        ((t.e ix).pendingOid = p.clientOid ∧ p.clientOid ≠ 0))
  bounded : (openOrders t).card ≤ ootCap
  freeNodup : t.free.Nodup
  freeMem : ∀ ix, ix ∈ t.free ↔ ix < ootCap ∧ ix ∉ openOrders t
  inDoubt : t.inDoubt = ((openOrders t).filter fun ix => (t.e ix).state = .inDoubt).card

namespace Sound

variable {t : Oot}

theorem free_nil (sound : Sound t) : t.free = [] ↔ (openOrders t).card = ootCap := by
  rw [eq_nil_iff_forall_not_mem]
  constructor
  · intro none
    have all : openOrders t = Finset.range ootCap := by
      apply Finset.filter_true_of_mem
      intro ix member free
      exact none ix ((sound.freeMem ix).mpr ⟨Finset.mem_range.mp member, free⟩)
    rw [all, Finset.card_range]
  · intro count ix member
    obtain ⟨inside, free⟩ := (sound.freeMem ix).mp member
    have fewer : (openOrders t).card < (Finset.range ootCap).card := by
      apply Finset.card_lt_card
      exact Finset.filter_ssubset.mpr ⟨ix, Finset.mem_range.mpr inside, fun opened => opened free⟩
    rw [Finset.card_range] at fewer
    omega

theorem taken_iff {p : Placement} :
    (∃ ix, HoldsCid t.e ⟨p.clientOid, p.slot, ix⟩ ∨ HoldsCur t.e ⟨p.clientOid, p.slot, ix⟩) ↔
      ∃ ix ∈ openOrders t, (t.e ix).slot = p.slot ∧ ((t.e ix).cidOid = p.clientOid ∨ (t.e ix).currentOid = p.clientOid ∨
        ((t.e ix).pendingOid = p.clientOid ∧ p.clientOid ≠ 0)) := by
  refine exists_congr fun ix => ?_
  rw [mem_openOrders]
  constructor
  · rintro (⟨opened, slot, placed⟩ | ⟨opened, slot, current⟩)
    · exact ⟨opened, slot, .inl placed⟩
    · exact ⟨opened, slot, .inr current⟩
  · rintro ⟨opened, slot, placed | current⟩
    · exact .inl ⟨opened, slot, placed⟩
    · exact .inr ⟨opened, slot, current⟩

theorem refused (sound : Sound t) (spare : Spare t.e) (p : Placement) :
    (∃ err t', t.insert p = some (.error err, t')) ↔ t.free = [] ∨
      ∃ ix, HoldsCid t.e ⟨p.clientOid, p.slot, ix⟩ ∨ HoldsCur t.e ⟨p.clientOid, p.slot, ix⟩ := by
  constructor
  · rintro ⟨err, t', failed⟩
    by_contra neither
    push Not at neither
    obtain ⟨ix, rest, free⟩ := exists_cons_of_ne_nil neither.1
    obtain ⟨t'', inserted, -⟩ := insert_ok sound spare free neither.2
    rw [inserted] at failed
    cases failed
  · intro either
    by_cases none : t.free = []
    · exact ⟨_, _, insert_full none p⟩
    · exact ⟨_, _, insert_duplicate sound spare none (either.resolve_left none)⟩

theorem exact (sound : Sound t) (spare : Spare t.e) : Exact t where
  ends op allowed := by
    obtain ⟨t', applied, -⟩ := apply sound spare allowed
    rw [applied]
    rfl
  placement slot oid := by
    obtain ⟨found, got, spec⟩ := sound.cidIndexes.get oid slot
    refine ⟨found, got, fun ix => (spec ix).trans ?_⟩
    rw [mem_openOrders]
    rfl
  current slot oid := by
    obtain ⟨found, got, spec⟩ := (sound.curIndexes spare).get oid slot
    refine ⟨found, got, fun ix => (spec ix).trans ?_⟩
    rw [mem_openOrders]
    rfl
  refused p := by rw [refused sound spare, sound.free_nil, taken_iff]
  bounded := by
    have := Finset.card_filter_le (Finset.range ootCap) fun ix => (t.e ix).state ≠ .free
    rwa [Finset.card_range] at this
  freeNodup := sound.freeNodup
  freeMem ix := by
    rw [sound.freeMem, mem_openOrders]
    unfold OpenAt
    tauto
  inDoubt := by
    rw [sound.doubt, doubts, ← Finset.card_filter, openOrders, Finset.filter_filter]
    refine congrArg Finset.card (Finset.filter_congr fun ix _ => ?_)
    exact ⟨fun doubted => ⟨by rw [doubted]; decide, doubted⟩, And.right⟩

end Sound

/-- While some entry has no modify in flight, every operation of a run ends and the table answers exactly for the
orders open. -/
theorem oot_exact (ops : List OotOp) (allowed : Along Oot.step (fun t op => t.allows op = true ∧ Spare t.e) Oot.new ops)
    (spare : Spare (run Oot.step Oot.new ops).e) :
    Along Oot.step (fun t op => (t.apply op).isSome) Oot.new ops ∧ Exact (run Oot.step Oot.new ops) := by
  obtain ⟨ended, sound⟩ := Sound.along allowed Sound.new
  exact ⟨ended, sound.exact spare⟩

theorem oot_exact_renamed :
    Exact (run Oot.step Oot.new [.insert ⟨0, 7, 0, 0, 0, 100, 5, 0⟩, .addPending 0 8 101 5 1, .setInDoubt 0]) :=
  (oot_exact [.insert ⟨0, 7, 0, 0, 0, 100, 5, 0⟩, .addPending 0 8 101 5 1, .setInDoubt 0]
    ⟨⟨by decide +kernel, 1, by decide +kernel, by decide +kernel⟩,
      ⟨by decide +kernel, 1, by decide +kernel, by decide +kernel⟩,
      ⟨by decide +kernel, 1, by decide +kernel, by decide +kernel⟩, trivial⟩
    ⟨1, by decide +kernel, by decide +kernel⟩).2

namespace Crowd

def placed (i : Nat) : Placement := ⟨0, UInt64.ofNat (i + 1), 0, 0, 0, 1, 1, 0⟩

def renamed (i : Nat) : OotEntry :=
  { Oot.opened (placed i) with
    pendingOid := UInt64.ofNat (ootCap + i + 1)
    flags := (Oot.opened (placed i)).flags ||| ofModifySent }

def inserts (n : Nat) : List OotOp := (range n).map fun i => .insert (placed i)

def modifies (n : Nat) : List OotOp := (range n).map fun i => .addPending i (UInt64.ofNat (ootCap + i + 1)) 1 1 0

def entries (m n : Nat) : Nat → OotEntry := fun i => if i < n then renamed i else if i < m then Oot.opened (placed i) else {}

def Ends (t : Oot) (op : OotOp) : Prop := t.allows op = true ∧ (t.apply op).isSome

theorem ofNat_inj {a b : Nat} (first : a ≤ 4096) (second : b ≤ 4096) (same : UInt64.ofNat a = UInt64.ofNat b) : a = b := by
  have values := congrArg UInt64.toNat same
  rwa [UInt64.toNat_ofNat_of_lt' (show a < 2 ^ 64 by omega), UInt64.toNat_ofNat_of_lt' (show b < 2 ^ 64 by omega)] at values

theorem entries_spare {m n : Nat} (room : n < ootCap) : Spare (entries m n) := by
  refine ⟨n, room, ?_⟩
  unfold entries
  rw [if_neg (Nat.lt_irrefl n)]
  split_ifs <;> rfl

theorem entries_cur {m n : Nat} {x : IxSlot} (held : HoldsCur (entries m n) x) :
    (x.entry < max m n ∧ x.oid = UInt64.ofNat (x.entry + 1)) ∨ (x.entry < n ∧ x.oid = UInt64.ofNat (ootCap + x.entry + 1)) := by
  obtain ⟨⟨inside, state⟩, -, ids⟩ := held
  unfold entries at state ids
  by_cases early : x.entry < n
  · rw [if_pos early] at ids
    rcases ids with current | ⟨pending, -⟩
    · exact .inl ⟨by omega, current.symm⟩
    · exact .inr ⟨early, pending.symm⟩
  · rw [if_neg early] at state ids
    by_cases placed : x.entry < m
    · rw [if_pos placed] at ids
      rcases ids with current | ⟨pending, nonzero⟩
      · exact .inl ⟨by omega, current.symm⟩
      · exact absurd pending.symm nonzero
    · rw [if_neg placed] at state
      exact absurd rfl state

theorem entries_cid {m : Nat} {x : IxSlot} (held : HoldsCid (entries m 0) x) :
    x.entry < m ∧ x.oid = UInt64.ofNat (x.entry + 1) := by
  obtain ⟨⟨inside, state⟩, -, placedId⟩ := held
  unfold entries at state placedId
  rw [if_neg (Nat.not_lt_zero _)] at state placedId
  by_cases placed : x.entry < m
  · rw [if_pos placed] at placedId
    exact ⟨placed, placedId.symm⟩
  · rw [if_neg placed] at state
    exact absurd rfl state

theorem inserted {m : Nat} (bound : m ≤ ootCap) :
    Along Oot.step Ends Oot.new (inserts m) ∧ Sound (run Oot.step Oot.new (inserts m)) ∧
      (run Oot.step Oot.new (inserts m)).e = entries m 0 ∧
      (run Oot.step Oot.new (inserts m)).free = range' m (ootCap - m) := by
  induction m with
  | zero => exact ⟨trivial, Sound.new, rfl, range_eq_range'⟩
  | succ m ih =>
    obtain ⟨along, sound, same, free⟩ := ih (by omega)
    have more : inserts (m + 1) = inserts m ++ [.insert (placed m)] := by
      unfold inserts
      rw [range_succ, map_append]
      rfl
    have capacity := ootCap_eq
    rw [show ootCap - m = (ootCap - (m + 1)) + 1 by omega, range'_succ] at free
    rw [more, along_concat, run_concat]
    generalize run Oot.step Oot.new (inserts m) = t at *
    have spare : Spare t.e := by
      rw [same]
      exact entries_spare ootCap_pos
    have new : ∀ ix, ¬HoldsCid t.e ⟨(placed m).clientOid, (placed m).slot, ix⟩ ∧
        ¬HoldsCur t.e ⟨(placed m).clientOid, (placed m).slot, ix⟩ := by
      intro ix
      rw [same]
      constructor
      · intro held
        obtain ⟨below, oid⟩ := entries_cid held
        have := ofNat_inj (by omega) (by dsimp only at below ⊢; omega) oid
        dsimp only at below this
        omega
      · intro held
        rcases entries_cur held with ⟨below, oid⟩ | ⟨none, -⟩
        · have := ofNat_inj (by omega) (by dsimp only at below ⊢; omega) oid
          dsimp only at below this
          omega
        · exact absurd none (Nat.not_lt_zero _)
    obtain ⟨t', done, kept, entry, rest⟩ := sound.insert_ok spare free new
    have applied : t.apply (.insert (placed m)) = some t' := by
      rw [Oot.apply, done]
      rfl
    refine ⟨⟨along, rfl, by rw [applied]; rfl⟩, ?_⟩
    rw [Oot.step, applied]
    refine ⟨kept, ?_, rest⟩
    rw [Option.getD_some, entry, same]
    funext i
    unfold entries
    rw [if_neg (Nat.not_lt_zero _)]
    by_cases own : i = m
    · rw [own, Function.update_self, if_pos (Nat.lt_succ_self m)]
    · rw [Function.update_of_ne own, if_neg (Nat.not_lt_zero _)]
      split_ifs <;> first | rfl | omega

theorem modified {n : Nat} (bound : n ≤ ootCap) {t : Oot} (sound : Sound t) (same : t.e = entries ootCap 0) :
    Along Oot.step Ends t (modifies n) ∧ Sound (run Oot.step t (modifies n)) ∧
      (run Oot.step t (modifies n)).e = entries ootCap n := by
  induction n with
  | zero => exact ⟨trivial, sound, same⟩
  | succ n ih =>
    obtain ⟨along, kept, before⟩ := ih (by omega)
    have more : modifies (n + 1) = modifies n ++ [.addPending n (UInt64.ofNat (ootCap + n + 1)) 1 1 0] := by
      unfold modifies
      rw [range_succ, map_append]
      rfl
    have capacity := ootCap_eq
    rw [more, along_concat, run_concat]
    generalize run Oot.step t (modifies n) = u at *
    have here : u.e n = Oot.opened (placed n) := by rw [before, entries, if_neg (Nat.lt_irrefl n), if_pos (by omega)]
    have opened : OpenAt u.e n := ⟨by omega, by rw [here]; exact OotState.noConfusion⟩
    have idle : (u.e n).pendingOid = 0 := by
      rw [here]
      rfl
    have some_id : UInt64.ofNat (ootCap + n + 1) ≠ 0 := by
      intro zero
      have := ofNat_inj (b := 0) (by omega) (by omega) zero
      omega
    have new : ∀ i, ¬HoldsCur u.e ⟨UInt64.ofNat (ootCap + n + 1), (u.e n).slot, i⟩ := by
      intro i
      rw [before]
      intro held
      have inside : i < ootCap := held.1.1
      rcases entries_cur held with ⟨-, oid⟩ | ⟨below, oid⟩
      · have := ofNat_inj (by omega) (by dsimp only; omega) oid
        dsimp only at this
        omega
      · have := ofNat_inj (by omega) (by dsimp only; omega) oid
        dsimp only at below this
        omega
    have spare : Spare u.e := by
      rw [before]
      exact entries_spare (by omega)
    obtain ⟨u', done, kept', entry⟩ := kept.addPending_ok spare opened idle some_id new 1 1 0
    have applied : u.apply (.addPending n (UInt64.ofNat (ootCap + n + 1)) 1 1 0) = some u' := by
      rw [Oot.apply, done]
      rfl
    have allowed : u.allows (.addPending n (UInt64.ofNat (ootCap + n + 1)) 1 1 0) = true :=
      (Bool.and_eq_true _ _).mpr ⟨Sound.isOpen_iff.mpr opened, beq_iff_eq.mpr idle⟩
    refine ⟨⟨along, allowed, by rw [applied]; rfl⟩, ?_⟩
    rw [Oot.step, applied]
    refine ⟨kept', ?_⟩
    rw [Option.getD_some, entry, here, before]
    funext i
    unfold entries
    by_cases own : i = n
    · rw [own, Function.update_self, if_pos (Nat.lt_succ_self n)]
      rfl
    · rw [Function.update_of_ne own]
      split_ifs <;> first | rfl | omega

def keys : Finset (UInt64 × UInt8) := (Finset.range ixCap).image fun i => (UInt64.ofNat (i + 1), 0)

theorem keys_card : ixCap ≤ keys.card := by
  unfold keys
  rw [Finset.card_image_of_injOn, Finset.card_range]
  intro i inside j inside' same
  have cap := ixCap_eq
  have capacity := ootCap_eq
  rw [Finset.coe_range, Set.mem_Iio] at inside inside'
  have := ofNat_inj (by omega) (by omega) (Prod.mk.inj same).1
  omega

theorem keys_held {k : UInt64 × UInt8} (member : k ∈ keys) : ∃ x, HoldsCur (entries ootCap ootCap) x ∧ x.key = k := by
  obtain ⟨i, inside, rfl⟩ := Finset.mem_image.mp member
  have cap := ixCap_eq
  rw [Finset.mem_range] at inside
  by_cases first : i < ootCap
  · refine ⟨⟨UInt64.ofNat (i + 1), 0, i⟩, ?_, rfl⟩
    unfold HoldsCur OpenAt entries
    dsimp only
    rw [if_pos first]
    exact ⟨⟨first, OotState.noConfusion⟩, rfl, .inl rfl⟩
  · refine ⟨⟨UInt64.ofNat (i + 1), 0, i - ootCap⟩, ?_, rfl⟩
    have capacity := ootCap_eq
    unfold HoldsCur OpenAt entries
    dsimp only
    rw [if_pos (by omega)]
    refine ⟨⟨by omega, OotState.noConfusion⟩, rfl, .inr ⟨?_, fun zero => ?_⟩⟩
    · rw [renamed]
      dsimp only
      rw [show ootCap + (i - ootCap) + 1 = i + 1 by omega]
    · have := ofNat_inj (b := 0) (by omega) (by omega) zero
      omega

theorem lost {t : Oot} (sound : Sound t) (same : t.e = entries ootCap ootCap) {oid : UInt64}
    (absent : ∀ ix, ¬HoldsCur t.e ⟨oid, 0, ix⟩) : t.byCurrent 0 oid = none := by
  have full : ∀ i < ixCap, t.byCur i ≠ none := by
    have all : ∀ k ∈ keys, ∃ x : IxSlot, Stored ixCap t.byCur x ∧ x.key = k := by
      intro k member
      obtain ⟨x, held, key⟩ := keys_held member
      rw [← same, ← sound.curStored] at held
      exact ⟨x, held, key⟩
    exact full_of_stored all keys_card
  have landed : t.byCur.seek oid 0 = .lost := by
    refine probe_lost (IdIndex.ixHome_lt oid 0) full ?_
    rintro ⟨oid', slot, ix⟩ stored
    apply decide_eq_false
    rintro ⟨rfl, rfl⟩
    exact absent ix ((sound.curStored _).mp stored)
  unfold Oot.byCurrent IdIndex.get
  rw [landed]

end Crowd

/-- With a modify in flight for each of 1024 orders the index has no empty slot: the lookup of an absent id does not
end, though every operation before it did. -/
theorem oot_lookup_never_ends :
    ∃ ops : List OotOp, Along Oot.step (fun t op => t.allows op = true ∧ (t.apply op).isSome) Oot.new ops ∧
      ∃ oid, (∀ ix ∈ openOrders (run Oot.step Oot.new ops), (((run Oot.step Oot.new ops).e ix).currentOid ≠ oid ∧
        ((run Oot.step Oot.new ops).e ix).pendingOid ≠ oid)) ∧
      (run Oot.step Oot.new ops).byCurrent 0 oid = none := by
  obtain ⟨placed, sound, same, -⟩ := Crowd.inserted le_rfl
  obtain ⟨along, kept, crowded⟩ := Crowd.modified le_rfl sound same
  refine ⟨Crowd.inserts ootCap ++ Crowd.modifies ootCap, along_append.mpr ⟨placed, along⟩, UInt64.ofNat 4096, ?_⟩
  rw [run_append]
  generalize run Oot.step (run Oot.step Oot.new (Crowd.inserts ootCap)) (Crowd.modifies ootCap) = t at *
  have absent : ∀ ix, ¬HoldsCur t.e ⟨UInt64.ofNat 4096, 0, ix⟩ := by
    intro ix held
    have inside : ix < ootCap := held.1.1
    have capacity := ootCap_eq
    rw [crowded] at held
    rcases Crowd.entries_cur held with ⟨-, oid⟩ | ⟨-, oid⟩
    · have := Crowd.ofNat_inj (by omega) (by dsimp only; omega) oid
      dsimp only at this
      omega
    · have := Crowd.ofNat_inj (by omega) (by dsimp only; omega) oid
      dsimp only at this
      omega
  refine ⟨fun ix member => ?_, Crowd.lost kept crowded absent⟩
  have opened := mem_openOrders.mp member
  have slot : (t.e ix).slot = 0 := by
    rw [crowded, Crowd.entries, if_pos opened.1]
    rfl
  refine ⟨fun current => absent ix ⟨opened, slot, .inl current⟩, fun pending => absent ix ⟨opened, slot, .inr ⟨pending, ?_⟩⟩⟩
  exact fun zero => absurd (Crowd.ofNat_inj (b := 0) (by omega) (by omega) zero) (by decide)

end TradingEngine.Venue
