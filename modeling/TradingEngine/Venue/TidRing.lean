import TradingEngine.Base.Probing
import TradingEngine.Base.Run

/-!
# The trade id ring of the user stream

The last `n` trade ids in a ring, with an open-addressed index of `2n` slots from an id's hash to its ring position.
-/

namespace TradingEngine.Venue
open Base Function Option List

variable {k m : Nat}

/-- `idx` is the index: a slot of value 0 is `none`, a value `v` the ring position `v - 1`. -/
structure TidRing where
  tids : Nat → UInt64
  idx : Nat → Option Nat
  next : Nat
  len : Nat

namespace TidRing

def new : TidRing := ⟨fun _ => 0, fun _ => none, 0, 0⟩

def hash (n : Nat) (tid : UInt64) : Nat := (tid * 0x9E3779B97F4A7C15).toNat >>> (64 - Nat.log2 (2 * n))

/-- The slot value of a ring position: `pos + 1` in 32 bits. -/
def slotValue (pos : Nat) : Option Nat :=
  match (pos + 1) % 2 ^ 32 with
  | 0 => none
  | v + 1 => some v

def lookup (n : Nat) (r : TidRing) (tid : UInt64) : Landing :=
  probe (2 * n) r.idx (fun p => r.tids p = tid) (2 * n) (hash n tid)

/-- The backward shift from slot `h`, with the hole it leaves and whether it met an empty slot. -/
def shift (n : Nat) (r : TidRing) (h : Nat) : (Nat → Option Nat) × Nat × Bool :=
  shiftBack (2 * n) (fun p => hash n (r.tids p)) (2 * n) r.idx h (nextSlot (2 * n) h)

def closeAt (n : Nat) (r : TidRing) (h : Nat) : TidRing :=
  { r with idx := update (r.shift n h).1 (r.shift n h).2.1 none }

def rowSlot (n : Nat) (r : TidRing) (tid : UInt64) (pos : Nat) : Landing :=
  probe (2 * n) r.idx (fun p => slotValue pos = some p) (2 * n) (hash n tid)

def remove (n : Nat) (r : TidRing) (tid : UInt64) (pos : Nat) : TidRing :=
  match r.rowSlot n tid pos with
  | .empty _ => r
  | .hit h => r.closeAt n h
  | .lost => r.closeAt n (hash n tid)

def evicted (n : Nat) (r : TidRing) : TidRing := if r.len = n then r.remove n (r.tids r.next) r.next else r

def freeSlot (n : Nat) (r : TidRing) (tid : UInt64) : Landing := probe (2 * n) r.idx (fun _ => false) (2 * n) (hash n tid)

def insert (n : Nat) (r : TidRing) (tid : UInt64) : TidRing where
  tids := update r.tids r.next tid
  idx := match r.freeSlot n tid with
    | .empty h => update r.idx h (slotValue r.next)
    | _ => r.idx
  next := (r.next + 1) % n
  len := if r.len < n then r.len + 1 else r.len

def admitTid (n : Nat) (r : TidRing) (tid : UInt64) : Bool × TidRing :=
  match r.lookup n tid with
  | .hit _ => (false, r)
  | _ => (true, (r.evicted n).insert n tid)

/-- Whether a loop of `admitTid` would run through all slots without an empty one. -/
def runsOut (n : Nat) (r : TidRing) (tid : UInt64) : Bool :=
  match r.lookup n tid with
  | .hit _ => false
  | .lost => true
  | .empty _ =>
    (r.len = n && match r.rowSlot n (r.tids r.next) r.next with
      | .hit h => !(r.shift n h).2.2
      | _ => true) ||
    match (r.evicted n).freeSlot n tid with
      | .empty _ => false
      | _ => true

def admitAll (n : Nat) : TidRing → List UInt64 → List Bool × TidRing := replies (admitTid n)

end TidRing

/-- An id is new when it is not among the last `n` that were; `accepted` lists those newest first. -/
def judgeTid (n : Nat) (accepted : List UInt64) (tid : UInt64) : Bool × List UInt64 :=
  if tid ∈ accepted.take n then (false, accepted) else (true, tid :: accepted)

def judgeAll (n : Nat) : List UInt64 → List UInt64 → List Bool × List UInt64 := replies (judgeTid n)

def place (n next i : Nat) : Nat := (next + n - 1 - i) % n

section Place

variable {n next i j : Nat}

section

variable (inside : next < n)

include inside

theorem place_eq (recent : i < n) : place n next i = if i < next then next - 1 - i else next + n - 1 - i := by
  unfold place
  split
  next before =>
    rw [show next + n - 1 - i = next - 1 - i + n by omega, Nat.add_mod_right]
    exact Nat.mod_eq_of_lt (by omega)
  next => exact Nat.mod_eq_of_lt (by omega)

theorem place_last : place n next (n - 1) = next := by
  rw [place_eq inside (by omega)]
  split_ifs <;> omega

theorem place_ne (recent : i + 1 < n) : place n next i ≠ next := by
  rw [place_eq inside (by omega)]
  split_ifs <;> omega

theorem place_newest : place n ((next + 1) % n) 0 = next := by
  rw [place_eq (Nat.mod_lt _ (by omega)) (by omega), ← nextSlot, nextSlot_eq inside]
  split_ifs <;> omega

theorem place_older (recent : i + 1 < n) : place n ((next + 1) % n) (i + 1) = place n next i := by
  rw [place_eq (Nat.mod_lt _ (by omega)) recent, place_eq inside (by omega), ← nextSlot, nextSlot_eq inside]
  split_ifs <;> omega

end

end Place

namespace TidRing

section Remembers

variable {n : Nat} {r : TidRing} {accepted : List UInt64} {tid : UInt64}

/-- The ring holds the last `n` accepted ids, newest first, and its index their positions. -/
structure Remembers (n : Nat) (r : TidRing) (accepted : List UInt64) : Prop where
  nextLt : r.next < n
  len : r.len = (accepted.take n).length
  fromStart : r.len < n → r.next = r.len
  cells : ∀ i tid, (accepted.take n)[i]? = some tid → r.tids (place n r.next i) = tid
  nodup : (accepted.take n).Nodup
  stored : ∀ p, Stored (2 * n) r.idx p ↔ ∃ i < r.len, p = place n r.next i
  table : Probing (2 * n) (fun p => hash n (r.tids p)) r.tids r.idx

theorem hash_lt (size : n = 2 ^ k) (width : k < 63) (tid : UInt64) : hash n tid < 2 * n := by
  have log : Nat.log2 (2 * n) = k + 1 := by rw [size, ← pow_succ', Nat.log2_two_pow]
  unfold hash
  rw [log, Nat.shiftRight_eq_div_pow, Nat.div_lt_iff_lt_mul (by positivity), size]
  calc (tid * 0x9E3779B97F4A7C15).toNat < 2 ^ 64 := UInt64.toNat_lt ..
    _ = 2 * 2 ^ k * 2 ^ (64 - (k + 1)) := by rw [← pow_succ', ← pow_add]; congr 1; omega

theorem Remembers.new (size : n = 2 ^ k) : Remembers n TidRing.new [] := by
  have positive : 0 < n := by rw [size]; positivity
  refine ⟨positive, by simp [TidRing.new], fun _ => rfl, ?_, by simp, ?_, Probing.empty ..⟩
  · intro i tid here
    simp at here
  intro p
  constructor
  · rintro ⟨i, -, here⟩
    cases here
  · rintro ⟨i, none, -⟩
    exact absurd none (Nat.not_lt_zero i)

section

variable (remembers : Remembers n r accepted)

include remembers

theorem Remembers.lenLe : r.len ≤ n := by
  rw [remembers.len, length_take]
  exact min_le_left ..

theorem Remembers.mem_iff : tid ∈ accepted.take n ↔ ∃ p, Stored (2 * n) r.idx p ∧ r.tids p = tid := by
  constructor
  · intro member
    obtain ⟨i, here⟩ := mem_iff_getElem?.mp member
    have recent : i < r.len := by
      rw [remembers.len]
      exact (List.getElem?_eq_some_iff.mp here).1
    exact ⟨place n r.next i, (remembers.stored _).mpr ⟨i, recent, rfl⟩, remembers.cells i tid here⟩
  · rintro ⟨p, stored, rfl⟩
    obtain ⟨i, recent, rfl⟩ := (remembers.stored p).mp stored
    rw [remembers.len] at recent
    have here := getElem?_eq_getElem recent
    rw [remembers.cells i _ here]
    exact getElem_mem recent

theorem Remembers.room_in {home : Nat → Nat} {idx : Nat → Option Nat} (table : Probing (2 * n) home r.tids idx)
    (fewer : ∀ p, Stored (2 * n) idx p → Stored (2 * n) r.idx p) : ∃ e < 2 * n, idx e = none := by
  have positive := remembers.nextLt
  refine table.room (accepted.take n).toFinset ?_ ?_
  · intro p stored
    exact mem_toFinset.mpr (remembers.mem_iff.mpr ⟨p, fewer p stored, rfl⟩)
  have := (accepted.take n).toFinset_card_le
  rw [← remembers.len] at this
  have := remembers.lenLe
  omega

theorem Remembers.room : ∃ e < 2 * n, r.idx e = none := remembers.room_in remembers.table fun _ => id

theorem Remembers.lookup_hit (member : tid ∈ accepted.take n) :
    ∃ h p, r.lookup n tid = .hit h ∧ h < 2 * n ∧ r.idx h = some p ∧ r.tids p = tid := by
  obtain ⟨p, ⟨h, bound, here⟩, rfl⟩ := remembers.mem_iff.mp member
  refine ⟨h, p, ?_, bound, here, rfl⟩
  exact remembers.table.probe_hit bound here fun q _ => decide_eq_true_iff

end

theorem Remembers.lookup_empty (size : n = 2 ^ k) (width : k < 63) (remembers : Remembers n r accepted)
    (new : tid ∉ accepted.take n) : ∃ h, r.lookup n tid = .empty h := by
  obtain ⟨e, room, free⟩ := remembers.room
  refine probe_empty (hash_lt size width tid) room free ?_
  intro p stored
  apply decide_eq_false
  intro same
  exact new (remembers.mem_iff.mpr ⟨p, stored, same⟩)

theorem Remembers.remove_oldest (remembers : Remembers n r accepted) (fits : slotValue r.next = some r.next)
    (full : r.len = n) :
    ∃ h, r.rowSlot n (r.tids r.next) r.next = .hit h ∧ (r.shift n h).2.2 = true ∧
      Probing (2 * n) (fun p => hash n (r.tids p)) r.tids (r.closeAt n h).idx ∧
      ∀ p, Stored (2 * n) (r.closeAt n h).idx p ↔ Stored (2 * n) r.idx p ∧ p ≠ r.next := by
  have positive := remembers.nextLt
  have oldest : Stored (2 * n) r.idx r.next :=
    (remembers.stored _).mpr ⟨n - 1, by omega, (place_last remembers.nextLt).symm⟩
  obtain ⟨h, bound, here⟩ := oldest
  obtain ⟨e, room, free⟩ := remembers.room
  obtain ⟨ended, closed, kept⟩ := remembers.table.delete bound here room free
  refine ⟨h, ?_, ended, closed, kept⟩
  refine remembers.table.probe_hit bound here ?_
  rintro p ⟨i, inside, there⟩
  rw [decide_eq_true_iff, fits, some.injEq]
  constructor
  · rintro rfl
    rfl
  intro same
  have := remembers.table.once i inside h bound p r.next there here same
  rw [this, here] at there
  exact some.inj there

theorem Remembers.evicted (remembers : Remembers n r accepted) (fits : slotValue r.next = some r.next) :
    Probing (2 * n) (fun p => hash n (r.tids p)) r.tids (r.evicted n).idx ∧
      (∀ p, Stored (2 * n) (r.evicted n).idx p ↔ ∃ i < min r.len (n - 1), p = place n r.next i) ∧
      (r.evicted n).tids = r.tids ∧ (r.evicted n).next = r.next ∧ (r.evicted n).len = r.len := by
  have inside := remembers.nextLt
  have most := remembers.lenLe
  unfold TidRing.evicted
  split
  next full =>
    obtain ⟨h, found, -, closed, kept⟩ := remembers.remove_oldest fits full
    have removed : r.remove n (r.tids r.next) r.next = r.closeAt n h := by
      unfold remove
      rw [found]
    rw [removed]
    refine ⟨closed, fun p => (kept p).trans ?_, rfl, rfl, rfl⟩
    rw [remembers.stored p]
    constructor
    · rintro ⟨⟨i, recent, rfl⟩, other⟩
      refine ⟨i, ?_, rfl⟩
      have : i ≠ n - 1 := by
        rintro rfl
        exact other (place_last inside)
      omega
    · rintro ⟨i, recent, rfl⟩
      exact ⟨⟨i, by omega, rfl⟩, place_ne inside (by omega)⟩
  next space =>
    refine ⟨remembers.table, fun p => (remembers.stored p).trans ?_, rfl, rfl, rfl⟩
    rw [min_eq_left (by omega)]

theorem Remembers.insert (size : n = 2 ^ k) (width : k < 63) (remembers : Remembers n r accepted)
    (fits : slotValue r.next = some r.next) (new : tid ∉ accepted.take n) :
    (∃ h, (r.evicted n).freeSlot n tid = .empty h) ∧ Remembers n ((r.evicted n).insert n tid) (tid :: accepted) := by
  have inside := remembers.nextLt
  obtain ⟨table, kept, tids, next, len⟩ := remembers.evicted fits
  have fewer : ∀ p, Stored (2 * n) (r.evicted n).idx p → Stored (2 * n) r.idx p ∧ p ≠ r.next := by
    intro p stored
    obtain ⟨i, recent, rfl⟩ := (kept p).mp stored
    exact ⟨(remembers.stored _).mpr ⟨i, by omega, rfl⟩, place_ne inside (by omega)⟩
  have old : ∀ p, Stored (2 * n) (r.evicted n).idx p → update r.tids r.next tid p = r.tids p :=
    fun p stored => update_of_ne (fewer p stored).2 ..
  have renamed : Probing (2 * n) (fun p => hash n (update r.tids r.next tid p))
      (update r.tids r.next tid) (r.evicted n).idx := table.congr (fun p stored => by rw [old p stored]) old
  have absent : ∀ p, Stored (2 * n) (r.evicted n).idx p → update r.tids r.next tid p ≠ update r.tids r.next tid r.next := by
    intro p stored
    rw [old p stored, update_self]
    intro same
    exact new (remembers.mem_iff.mpr ⟨p, (fewer p stored).1, same⟩)
  have home : hash n (update r.tids r.next tid r.next) = hash n tid := by rw [update_self]
  have start : hash n (update r.tids r.next tid r.next) < 2 * n := by
    rw [home]
    exact hash_lt size width tid
  obtain ⟨e, room, free⟩ := remembers.room_in table fun p stored => (fewer p stored).1
  have landing : ∃ j, probe (2 * n) (r.evicted n).idx (fun _ => false) (2 * n) _ = .empty j :=
    probe_empty start room free fun _ _ => rfl
  obtain ⟨h, landed⟩ := landing
  obtain ⟨inserted, bound, empty⟩ := renamed.insert start landed absent
  rw [home] at landed
  refine ⟨⟨h, landed⟩, ?_⟩
  have written : (r.evicted n).insert n tid =
      ⟨update r.tids r.next tid, update (r.evicted n).idx h (some r.next), (r.next + 1) % n,
        if r.len < n then r.len + 1 else r.len⟩ := by
    unfold TidRing.insert freeSlot
    rw [landed, tids, next, len, fits]
  rw [written]
  have most := remembers.lenLe
  have counted : (if r.len < n then r.len + 1 else r.len) = min (r.len + 1) n := by split <;> omega
  have taken : (tid :: accepted).take n = tid :: accepted.take (n - 1) := by
    obtain ⟨m, rfl⟩ : ∃ m, n = m + 1 := ⟨n - 1, by omega⟩
    rfl
  have recalled : ∀ i x, (accepted.take (n - 1))[i]? = some x → i + 1 < n ∧ (accepted.take n)[i]? = some x := by
    intro i x here
    have bound := (List.getElem?_eq_some_iff.mp here).1
    rw [length_take] at bound
    rw [getElem?_take_of_lt (by omega)] at here ⊢
    exact ⟨by omega, here⟩
  refine ⟨Nat.mod_lt _ (by omega), ?_, ?_, ?_, ?_, ?_, inserted⟩
  · have before := remembers.len
    rw [length_take] at before
    dsimp only
    rw [counted, taken, length_cons, length_take]
    omega
  · intro space
    dsimp only at space ⊢
    rw [counted] at space ⊢
    rw [remembers.fromStart (by omega), Nat.mod_eq_of_lt (by omega)]
    omega
  · intro i x here
    dsimp only
    rw [taken] at here
    cases i with
    | zero =>
      rw [place_newest inside, update_self]
      exact some.inj here
    | succ i =>
      obtain ⟨recent, there⟩ := recalled i x here
      rw [place_older inside recent, update_of_ne (place_ne inside recent), remembers.cells i x there]
  · rw [taken]
    refine nodup_cons.mpr ⟨?_, remembers.nodup.sublist (take_sublist_take_left (by omega))⟩
    intro member
    exact new ((take_subset_take_left _ (by omega)) member)
  · intro p
    dsimp only
    rw [stored_update bound empty, kept p, counted]
    constructor
    · rintro (rfl | ⟨i, recent, rfl⟩)
      · exact ⟨0, by omega, (place_newest inside).symm⟩
      · exact ⟨i + 1, by omega, (place_older inside (by omega)).symm⟩
    · rintro ⟨i, recent, rfl⟩
      cases i with
      | zero => exact .inl (place_newest inside)
      | succ i => exact .inr ⟨i, by omega, place_older inside (by omega)⟩

theorem slotValue_of_lt {pos : Nat} (small : pos + 1 < 2 ^ 32) : slotValue pos = some pos := by
  unfold slotValue
  rw [Nat.mod_eq_of_lt small]

theorem Remembers.admits (size : n = 2 ^ k) (width : k < 63) (remembers : Remembers n r accepted)
    (fits : slotValue r.next = some r.next) (tid : UInt64) :
    (r.admitTid n tid).1 = (judgeTid n accepted tid).1 ∧ Remembers n (r.admitTid n tid).2 (judgeTid n accepted tid).2 ∧
      r.runsOut n tid = false := by
  unfold TidRing.admitTid judgeTid runsOut
  by_cases member : tid ∈ accepted.take n
  · obtain ⟨h, p, found, -⟩ := remembers.lookup_hit member
    rw [found, if_pos member]
    exact ⟨rfl, remembers, rfl⟩
  obtain ⟨h, missed⟩ := remembers.lookup_empty size width member
  obtain ⟨⟨free, landed⟩, inserted⟩ := remembers.insert size width fits member
  rw [missed, if_neg member]
  refine ⟨rfl, inserted, ?_⟩
  dsimp only
  rw [landed, Bool.or_false, Bool.and_eq_false_iff]
  by_cases full : r.len = n
  · obtain ⟨row, found, ended, -⟩ := remembers.remove_oldest fits full
    right
    rw [found]
    dsimp only
    rw [ended]
    rfl
  · exact .inl (decide_eq_false full)

theorem Remembers.admitAll (size : n = 2 ^ k) (width : k < 32) (remembers : Remembers n r accepted)
    (tids : List UInt64) :
    (r.admitAll n tids).1 = (judgeAll n accepted tids).1 ∧
      Remembers n (r.admitAll n tids).2 (judgeAll n accepted tids).2 := by
  refine replies_related remembers ?_ tids
  intro r accepted tid remembers
  have below : n ≤ 2 ^ 31 := by
    rw [size]
    exact Nat.pow_le_pow_right (by omega) (by omega)
  have fits := slotValue_of_lt (show r.next + 1 < 2 ^ 32 by have := remembers.nextLt; omega)
  obtain ⟨answer, kept, -⟩ := remembers.admits size (by omega) fits tid
  exact ⟨answer, kept⟩

/-- The ids a ring holds, newest first. -/
def remembered (n : Nat) (r : TidRing) : List UInt64 := (List.range r.len).map fun i => r.tids (place n r.next i)

theorem Remembers.remembered (remembers : Remembers n r accepted) : r.remembered n = accepted.take n := by
  apply ext_getElem?
  intro i
  unfold TidRing.remembered
  rw [getElem?_map]
  by_cases recent : i < r.len
  · rw [getElem?_range recent, map_some]
    rw [remembers.len] at recent
    rw [getElem?_eq_getElem recent, remembers.cells i _ (getElem?_eq_getElem recent)]
  · rw [getElem?_eq_none (by simpa using recent), map_none, getElem?_eq_none]
    rw [← remembers.len]
    omega

/-- The ring answers, and remembers, as the list of the last accepted ids; every remembered id has one index entry,
found from its hash, and no loop of a call runs out of empty slots. -/
theorem tidRing_remembers_last {k : Nat} (width : k ≤ 31) (tids : List UInt64) (tid : UInt64) :
    (TidRing.new.admitAll (2 ^ k) tids).1 = (judgeAll (2 ^ k) [] tids).1 ∧
      (TidRing.new.admitAll (2 ^ k) tids).2.remembered (2 ^ k) = (judgeAll (2 ^ k) [] tids).2.take (2 ^ k) ∧
      (∀ id ∈ (judgeAll (2 ^ k) [] tids).2.take (2 ^ k), ∃ h p,
        (TidRing.new.admitAll (2 ^ k) tids).2.lookup (2 ^ k) id = .hit h ∧
        (TidRing.new.admitAll (2 ^ k) tids).2.idx h = some p ∧ (TidRing.new.admitAll (2 ^ k) tids).2.tids p = id ∧
        ∀ h' < 2 * 2 ^ k, ∀ p', (TidRing.new.admitAll (2 ^ k) tids).2.idx h' = some p' →
          (TidRing.new.admitAll (2 ^ k) tids).2.tids p' = id → h' = h) ∧
      (∀ h < 2 * 2 ^ k, ∀ p, (TidRing.new.admitAll (2 ^ k) tids).2.idx h = some p →
        (TidRing.new.admitAll (2 ^ k) tids).2.tids p ∈ (judgeAll (2 ^ k) [] tids).2.take (2 ^ k)) ∧
      (TidRing.new.admitAll (2 ^ k) tids).2.runsOut (2 ^ k) tid = false := by
  obtain ⟨answers, remembers⟩ := (Remembers.new (n := 2 ^ k) rfl).admitAll rfl (by omega) tids
  generalize TidRing.new.admitAll (2 ^ k) tids = ended at answers remembers ⊢
  have below : 2 ^ k ≤ 2 ^ 31 := Nat.pow_le_pow_right (by omega) width
  have fits := slotValue_of_lt (show ended.2.next + 1 < 2 ^ 32 by have := remembers.nextLt; omega)
  refine ⟨answers, remembers.remembered, ?_, ?_, (remembers.admits rfl (by omega) fits tid).2.2⟩
  · intro id member
    obtain ⟨h, p, found, bound, here, rfl⟩ := remembers.lookup_hit member
    refine ⟨h, p, found, here, rfl, ?_⟩
    intro h' bound' p' there same
    exact remembers.table.once h' bound' h bound p' p there here same
  · intro h bound p here
    exact remembers.mem_iff.mpr ⟨p, ⟨h, bound, here⟩, rfl⟩

theorem tidRing_remembers_last_two :
    1 ≤ 31 ∧ (TidRing.new.admitAll (2 ^ 1) [7, 8, 7, 9, 7]).1 = (judgeAll (2 ^ 1) [] [7, 8, 7, 9, 7]).1 :=
  ⟨by decide, (tidRing_remembers_last (by decide) [7, 8, 7, 9, 7] 8).1⟩

/-- The first `m` numbers as ids. -/
def counted (m : Nat) : List UInt64 := (List.range m).map UInt64.ofNat

theorem not_mem_counted (small : m < 2 ^ 64) : UInt64.ofNat m ∉ counted m := by
  intro member
  obtain ⟨i, below, same⟩ := mem_map.mp member
  rw [mem_range] at below
  have values := congrArg UInt64.toNat same
  rw [UInt64.toNat_ofNat_of_lt' (show i < 2 ^ 64 by omega), UInt64.toNat_ofNat_of_lt' (show m < 2 ^ 64 by omega)] at values
  omega

theorem counted_remembered (below : m < 2 ^ 32) :
    (judgeAll (2 ^ 32) [] (counted m)).2 = (counted m).reverse ∧
      Remembers (2 ^ 32) (TidRing.new.admitAll (2 ^ 32) (counted m)).2 (counted m).reverse := by
  induction m with
  | zero => exact ⟨rfl, Remembers.new (k := 32) rfl⟩
  | succ m ih =>
    obtain ⟨recalled, remembers⟩ := ih (by omega)
    have more : counted (m + 1) = counted m ++ [UInt64.ofNat m] := by
      unfold counted
      rw [range_succ, map_append]
      rfl
    have length : (counted m).reverse.length = m := by rw [length_reverse, counted, length_map, length_range]
    have whole : (counted m).reverse.take (2 ^ 32) = (counted m).reverse := take_of_length_le (by omega)
    have new : UInt64.ofNat m ∉ (counted m).reverse.take (2 ^ 32) := by
      rw [whole, mem_reverse]
      exact not_mem_counted (by omega)
    have taken : judgeTid (2 ^ 32) (counted m).reverse (UInt64.ofNat m) = (true, UInt64.ofNat m :: (counted m).reverse) :=
      if_neg new
    have position : (TidRing.new.admitAll (2 ^ 32) (counted m)).2.next = m := by
      have len := remembers.len
      rw [whole, length] at len
      rw [remembers.fromStart (by omega), len]
    obtain ⟨-, kept, -⟩ := remembers.admits (k := 32) rfl (by decide)
      (by rw [position]; exact slotValue_of_lt below) (UInt64.ofNat m)
    rw [taken] at kept
    rw [more, reverse_append]
    constructor
    · rw [judgeAll, replies_concat, ← judgeAll, recalled, taken]
      rfl
    · rw [TidRing.admitAll, replies_concat, ← TidRing.admitAll]
      exact kept

theorem insert_unindexed {n p : Nat} {r : TidRing} {tid : UInt64} (valueless : slotValue r.next = none)
    (stored : Stored m (r.insert n tid).idx p) : Stored m r.idx p := by
  obtain ⟨i, bound, here⟩ := stored
  refine ⟨i, bound, ?_⟩
  unfold TidRing.insert at here
  dsimp only at here
  cases landed : r.freeSlot n tid with
  | empty h =>
    rw [landed] at here
    rcases update_eq_some.mp here with ⟨_, written⟩ | ⟨_, here⟩
    · cases valueless.symm.trans written
    · exact here
  | hit h | lost => rwa [landed] at here

theorem admit_new {n : Nat} {r : TidRing} {tid : UInt64} (missed : ∀ i, r.lookup n tid ≠ .hit i) :
    (r.admitTid n tid).1 = true := by
  unfold TidRing.admitTid
  split
  next i found => exact absurd found (missed i)
  · rfl

theorem readmits {n : Nat} {r : TidRing} {accepted : List UInt64} {tid : UInt64} (size : n = 2 ^ k) (width : k < 63)
    (remembers : Remembers n r accepted) (room : r.len < n) (valueless : slotValue r.next = none)
    (new : tid ∉ accepted.take n) :
    (r.admitTid n tid).1 = true ∧ ((r.admitTid n tid).2.admitTid n tid).1 = true := by
  obtain ⟨h, missed⟩ := remembers.lookup_empty size width new
  have admitted : r.admitTid n tid = (true, r.insert n tid) := by
    unfold TidRing.admitTid TidRing.evicted
    rw [missed, if_neg (by omega)]
  rw [admitted]
  refine ⟨rfl, admit_new fun i found => ?_⟩
  obtain ⟨bound, p, here, matched⟩ := hit_stored (hash_lt size width tid) found
  have stored := insert_unindexed valueless ⟨i, bound, here⟩
  have value : update r.tids r.next tid p = tid := of_decide_eq_true matched
  obtain ⟨j, recent, rfl⟩ := (remembers.stored p).mp stored
  rw [update_of_ne (place_ne remembers.nextLt (by omega))] at value
  exact new (remembers.mem_iff.mpr ⟨_, stored, value⟩)

theorem judgeTid_twice {n : Nat} {past : List UInt64} {tid : UInt64} (some_rows : 0 < n) (new : tid ∉ past.take n) :
    (judgeTid n past tid).1 = true ∧ (judgeTid n (judgeTid n past tid).2 tid).1 = false := by
  have first : judgeTid n past tid = (true, tid :: past) := if_neg new
  rw [first]
  refine ⟨rfl, ?_⟩
  obtain ⟨m, rfl⟩ : ∃ m, n = m + 1 := ⟨n - 1, by omega⟩
  unfold judgeTid
  rw [if_pos]
  rw [take_succ_cons]
  exact mem_cons_self

/-- The row at position `2 ^ 32 - 1` gets slot value 0: its id is not indexed and is admitted again at once. -/
theorem tidRing_forgets_its_last_row :
    ¬∀ (k : Nat), 1 ≤ k → ∀ tids, (TidRing.new.admitAll (2 ^ k) tids).1 = (judgeAll (2 ^ k) [] tids).1 := by
  intro same
  obtain ⟨judged, remembers⟩ := counted_remembered (m := 2 ^ 32 - 1) (by decide)
  have length : (counted (2 ^ 32 - 1)).reverse.length = 2 ^ 32 - 1 := by
    rw [length_reverse, counted, length_map, length_range]
  have new : UInt64.ofNat (2 ^ 32 - 1) ∉ (counted (2 ^ 32 - 1)).reverse.take (2 ^ 32) := by
    intro member
    exact not_mem_counted (by decide) (mem_reverse.mp (mem_of_mem_take member))
  have len := remembers.len
  rw [length_take, length] at len
  have last := remembers.fromStart (by omega)
  have valueless : slotValue (TidRing.new.admitAll (2 ^ 32) (counted (2 ^ 32 - 1))).2.next = none := by
    rw [last, len]
    rfl
  obtain ⟨-, again⟩ := readmits (k := 32) rfl (by decide) remembers (by omega) valueless new
  have once := (judgeTid_twice (Nat.two_pow_pos 32) new).2
  rw [← judged] at once
  have expected := same 32 (by decide) (counted (2 ^ 32 - 1) ++ [UInt64.ofNat (2 ^ 32 - 1)] ++ [UInt64.ofNat (2 ^ 32 - 1)])
  have ends := congrArg getLast? expected
  rw [TidRing.admitAll, judgeAll, replies_last_two, replies_last_two] at ends
  cases again.symm.trans ((some.inj ends).trans once)

end Remembers

end TidRing

end TradingEngine.Venue
