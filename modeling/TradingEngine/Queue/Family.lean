import TradingEngine.Base.Lineage
import TradingEngine.Queue.Life

/-!
# One quote decision

A replacement descends from the order it names.
-/

namespace TradingEngine.Queue

open Base CoreTypes List Option QueueDesk

variable {uid : Nat} {table : List Held} {k : Held} {d : QueueDesk} {op : QueueOp}

/-! ### What a family may tell -/

def Rested (told : List Told) (uid : Nat) : Prop := ∃ x ∈ told, x.uid = uid ∧ x.event.kind = .resting

/-- An order rests while the one it replaces is still there, and is not filled once replaced. -/
def Faithful (filed : Nat → Filing) (before : List Told) (e : Told) : Prop :=
  (e.event.kind = .resting → ∀ p, (filed e.uid).parent = some p → ∀ x ∈ before, x.uid = p →
    x.event.kind ≠ .filled ∧ x.event.kind ≠ .canceled ∧ x.event.kind ≠ .rejected) ∧
  (e.event.kind = .fill → ∀ u, (filed u).parent = some e.uid → ∀ x ∈ before, x.uid = u → x.event.kind ≠ .resting)

theorem rested_append {told new : List Told} (rested : Rested (told ++ new) uid) :
    Rested told uid ∨ Rested new uid := by
  obtain ⟨x, member, own⟩ := rested
  rcases mem_append.mp member with before | fresh
  · exact .inl ⟨x, before, own⟩
  · exact .inr ⟨x, fresh, own⟩

theorem Rested.mono {told : List Told} (rested : Rested told uid) (new : List Told) : Rested (told ++ new) uid := by
  obtain ⟨x, member, own⟩ := rested
  exact ⟨x, mem_append_left _ member, own⟩

theorem Turn.rested {venue tNs : Nat} {h : Held} {o : Option Held} {new : List Told}
    (turn : Turn venue tNs table h o new) (rested : Rested new uid) :
    uid = h.uid ∧ h.order.state = .pending ∧ h.order.readyNs ≤ tNs ∧ symbolVenueByte h.order.sym = venue ∧
      (h.link ≠ 0 → (find table h.link h.order.slot).isOk = true) ∧
      ∃ done rest, table = done ++ h :: rest ∧ ∀ k ∈ done, Landed tNs h.order.sym k := by
  obtain ⟨x, member, rfl, kind⟩ := rested
  have own := turn.uids x member
  cases turn with
  | rest ahead pending ready replaces here settled => exact ⟨own, pending, ready, here, replaces, settled⟩
  | whole resting early positive =>
    rcases mem_cons.mp member with rfl | last
    · exact nomatch kind
    · rw [mem_singleton.mp last] at kind
      exact nomatch kind
  | _ => simp_all [Held.tells]

theorem Turn.pending {venue tNs : Nat} {h : Held} {new : List Told}
    (turn : Turn venue tNs table h (some k) new) (pending : k.order.state = .pending) : h.order.state = .pending := by
  cases turn with
  | stay ahead => exact pending
  | rest ahead _ ready replaces here settled => exact nomatch pending
  | part ahead fill resting early positive less => exact pending

theorem Turn.stays_resting {venue tNs : Nat} {h : Held} {new : List Told}
    (turn : Turn venue tNs table h (some k) new) (resting : h.order.state = .resting) : k.order.state = .resting := by
  cases turn with
  | stay ahead => exact resting
  | rest ahead _ ready replaces here settled => rfl
  | part ahead fill _ early positive less => exact resting

section Held

variable {filed : Nat → Filing} {n : Nat} {orders : List Held} {told : List Told} {h : Held}

theorem Booked.held_events (booked : Booked filed n orders told) (member : h ∈ orders) :
    (h.order.state = .resting → Rested told h.uid) ∧
      ∀ x ∈ told, x.uid = h.uid → x.event.kind = .resting ∨ x.event.kind = .fill := by
  have life := booked.lives h member
  have mine : ∀ x ∈ told, x.uid = h.uid → x.event ∈ lifeOf told h.uid := by
    intro x told own
    exact mem_map_of_mem (mem_filter.mpr ⟨told, by simpa using own⟩)
  cases state : h.order.state with
  | pending =>
    rw [Held.stage_pending state] at life
    refine ⟨fun resting => (nomatch resting), fun x told own => ?_⟩
    have event := mine x told own
    generalize lifeOf _ _ = es at life event
    cases life
    exact absurd event not_mem_nil
  | resting =>
    rw [Held.stage_resting state] at life
    obtain ⟨first, fills, es, rests, all, _⟩ := life.resting_shape rfl
    refine ⟨fun _ => ?_, fun x told own => ?_⟩
    · have listed : first ∈ lifeOf told h.uid := by
        rw [es]
        exact mem_cons_self
      obtain ⟨x, member, rfl⟩ := mem_map.mp listed
      obtain ⟨member, own⟩ := mem_filter.mp member
      exact ⟨x, member, by simpa using own, rests⟩
    · have event := mine x told own
      rw [es] at event
      rcases mem_cons.mp event with first | fill
      · rw [first]
        exact .inl rests
      · exact .inr (all _ fill).1

end Held

/-- What the file of accepted orders says of parents, and the table of the links to them. -/
structure Lineage (filed : Nat → Filing) (n : Nat) (orders : List Held) : Prop where
  parents : ∀ u < n, ∀ p, (filed u).parent = some p → p < u ∧ (filed p).place.clientOid ≠ 0 ∧
    (filed p).place.slot = (filed u).place.slot ∧ (filed p).place.sym = (filed u).place.sym ∧
    (filed p).place.readyNs ≤ (filed u).place.readyNs
  ids : ∀ u < n, ∀ v < n, (filed u).place.slot = (filed v).place.slot →
    (filed u).place.clientOid = (filed v).place.clientOid → (filed u).place.clientOid ≠ 0 → u = v
  links : ∀ h ∈ orders, h.link = (filed h.uid).parent.elim 0 fun p => (filed p).place.clientOid
  cancels : ∀ h ∈ orders, ∀ u < n, (filed u).parent = some h.uid → h.order.cancelNs ≤ (filed u).place.readyNs

/-- What came to rest after the order it names, which has left since. -/
structure Lines (filed : Nat → Filing) (orders : List Held) (told : List Told) : Prop where
  left : ∀ u p, Rested told u → (filed u).parent = some p → Rested told p ∧ ∀ h ∈ orders, h.uid ≠ p
  single : ∀ u v p, Rested told u → Rested told v → (filed u).parent = some p → (filed v).parent = some p → u = v
  faithful : Clean (Faithful filed) told

/-- No record at this time meets two replacements of one held order. -/
def Lone (tNs : Nat) (orders : List Held) : Prop :=
  ∀ h ∈ orders, ∀ k ∈ orders, h.order.state = .pending → k.order.state = .pending → h.order.readyNs ≤ tNs →
    k.order.readyNs ≤ tNs → h.link ≠ 0 → k.link = h.link → k.order.slot = h.order.slot →
    (∃ g ∈ orders, g.named h.link h.order.slot = true) → h = k

theorem Lineage.siblings {filed : Nat → Filing} {n tNs : Nat} {orders : List Held} {told : List Told} {g h : Held}
    (lineage : Lineage filed n orders) (booked : Booked filed n orders told) (lone : Lone tNs orders)
    (first : h ∈ orders) (second : k ∈ orders) (held : g ∈ orders) (pending : h.order.state = .pending)
    (pending' : k.order.state = .pending) (ready : h.order.readyNs ≤ tNs) (ready' : k.order.readyNs ≤ tNs)
    (parent : (filed h.uid).parent = some g.uid) (parent' : (filed k.uid).parent = some g.uid) : h = k := by
  obtain ⟨_, named, slots, _⟩ := lineage.parents h.uid (booked.below h first) g.uid parent
  obtain ⟨_, _, slots', _⟩ := lineage.parents k.uid (booked.below k second) g.uid parent'
  have link : h.link = (filed g.uid).place.clientOid := by rw [lineage.links h first, parent, elim_some]
  have link' : k.link = (filed g.uid).place.clientOid := by rw [lineage.links k second, parent', elim_some]
  have slot : h.order.slot = (filed g.uid).place.slot := by rw [(booked.agrees h first).slot, slots]
  have slot' : k.order.slot = (filed g.uid).place.slot := by rw [(booked.agrees k second).slot, slots']
  refine lone h first k second pending pending' ready ready' ?_ (link'.trans link.symm) (slot'.trans slot.symm)
    ⟨g, held, ?_⟩
  · rw [link]
    exact named
  · have agrees := booked.agrees g held
    simp [Held.named, link, slot, agrees.clientOid, agrees.slot]

/-! ### In the course of a record -/

theorem Held.Stems.trans {h l : Held} (first : h.Stems k) (second : k.Stems l) : h.Stems l :=
  ⟨second.uid.trans first.uid, second.link.trans first.link, second.clientOid.trans first.clientOid,
    second.px.trans first.px, second.sym.trans first.sym, second.slot.trans first.slot, second.ready.trans first.ready,
    second.cancel.trans first.cancel⟩

/-- Between two turns of a record: an order whose replacement came to rest is due to leave. -/
structure Midway (filed : Nat → Filing) (n venue tNs : Nat) (start : List Held) (past : List Told)
    (orders : List Held) (told : List Told) : Prop where
  booked : Booked filed n orders told
  origin : ∀ h ∈ orders, ∃ g ∈ start, g.Stems h ∧ (h.order.state = .pending → g.order.state = .pending)
  fresh : ∀ u, Rested told u → Rested past u ∨
    ∃ g ∈ start, g.uid = u ∧ g.order.state = .pending ∧ g.order.readyNs ≤ tNs
  leaving : ∀ u p, Rested told u → (filed u).parent = some p → Rested told p ∧ ∀ h ∈ orders, h.uid = p →
    h.order.state = .resting ∧ h.order.cancelNs ≤ tNs ∧ symbolVenueByte h.order.sym = venue
  single : ∀ u v p, Rested told u → Rested told v → (filed u).parent = some p → (filed v).parent = some p → u = v
  faithful : Clean (Faithful filed) told

section Midway

variable {filed : Nat → Filing} {n venue tNs : Nat} {start orders pre post : List Held} {past told new : List Told}
  {h : Held} {o : Option Held}

theorem Midway.begin (booked : Booked filed n start past) (lines : Lines filed start past) :
    Midway filed n venue tNs start past start past := by
  refine ⟨booked, fun h member => ⟨h, member, ⟨rfl, rfl, rfl, rfl, rfl, rfl, rfl, rfl⟩, id⟩, fun u => .inl,
    fun u p rested parent => ?_, lines.single, lines.faithful⟩
  obtain ⟨first, absent⟩ := lines.left u p rested parent
  exact ⟨first, fun h member same => absurd same (absent h member)⟩

theorem find_isOk {clientOid slot : Nat} (found : (find orders clientOid slot).isOk = true) :
    ∃ h ∈ orders, h.named clientOid slot = true := by
  cases result : find orders clientOid slot with
  | error why =>
    rw [result] at found
    exact nomatch found
  | ok i =>
    obtain ⟨pre, h, post, rfl, _, named, _⟩ := find_ok result
    exact ⟨h, mem_append_right _ mem_cons_self, named⟩

theorem Midway.replaced {p : Nat} (lineage : Lineage filed n start)
    (mid : Midway filed n venue tNs start past table told) (member : h ∈ table) (ready : h.order.readyNs ≤ tNs)
    (parent : (filed h.uid).parent = some p)
    (replaces : h.link ≠ 0 → (find table h.link h.order.slot).isOk = true)
    (settled : ∃ done rest, table = done ++ h :: rest ∧ ∀ k ∈ done, Landed tNs h.order.sym k) :
    ∃ g ∈ table, g.uid = p ∧ g.order.state = .resting ∧ g.order.cancelNs ≤ tNs ∧ g.order.sym = h.order.sym := by
  have agrees := mid.booked.agrees h member
  have below := mid.booked.below h member
  obtain ⟨older, named, slots, syms, sooner⟩ := lineage.parents h.uid below p parent
  have link : h.link = (filed p).place.clientOid := by
    obtain ⟨g, listed, stems, _⟩ := mid.origin h member
    have links := lineage.links g listed
    rw [← stems.uid, parent] at links
    rw [stems.link]
    exact links
  obtain ⟨g, held, name⟩ := find_isOk (replaces (by rw [link]; exact named))
  obtain ⟨oid, slot⟩ : g.order.clientOid = h.link ∧ g.order.slot = h.order.slot := by simpa [Held.named] using name
  have agrees' := mid.booked.agrees g held
  have same : g.uid = p := by
    refine lineage.ids g.uid (mid.booked.below g held) p (older.trans below) ?_ ?_ ?_
    · rw [← agrees'.slot, slot, agrees.slot, slots]
    · rw [← agrees'.clientOid, oid, link]
    · rw [← agrees'.clientOid, oid, link]
      exact named
  have sym : g.order.sym = h.order.sym := by rw [agrees'.sym, same, syms, ← agrees.sym]
  refine ⟨g, held, same, ?_, ?_, sym⟩
  · -- the table stands in the order of filing, so the parent was visited first
    obtain ⟨done, rest, split, landed⟩ := settled
    have sorted := mid.booked.sorted
    rw [split] at held sorted
    obtain ⟨_, later, _⟩ := pairwise_append.mp sorted
    rcases mem_append.mp held with before | after
    · by_contra waits
      refine landed g before sym ⟨?_, ?_⟩
      · cases state : g.order.state with
        | pending => rfl
        | resting => exact absurd state waits
      · rw [agrees'.ready, same]
        rw [agrees.ready] at ready
        exact sooner.trans ready
    · rcases mem_cons.mp after with rfl | beyond
      · omega
      · have := (pairwise_cons.mp later).1 g beyond
        omega
  · obtain ⟨g₀, listed, stems, _⟩ := mid.origin g held
    have scheduled := lineage.cancels g₀ listed h.uid below (by rw [parent, ← stems.uid, same])
    rw [stems.cancel]
    rw [agrees.ready] at ready
    exact scheduled.trans ready

theorem Midway.faithful_turn (lineage : Lineage filed n start)
    (mid : Midway filed n venue tNs start past (pre ++ h :: post) told)
    (turn : Turn venue tNs (pre ++ h :: post) h o new) : Clean (Faithful filed) (told ++ new) := by
  have here : h ∈ pre ++ h :: post := mem_append_right _ mem_cons_self
  have fill : ∀ qty, tNs < h.order.cancelNs → Faithful filed told (h.tells tNs .fill .none qty) := by
    intro qty early
    refine ⟨fun kind => (nomatch kind), fun _ u parent x member own rests => ?_⟩
    obtain ⟨_, leaves⟩ := mid.leaving u h.uid ⟨x, member, own, rests⟩ parent
    obtain ⟨_, due, _⟩ := leaves h here rfl
    omega
  have silent : ∀ before kind reason qty, kind ≠ .resting → kind ≠ .fill →
      Faithful filed before (h.tells tNs kind reason qty) :=
    fun _ _ _ _ first second => ⟨fun kind => absurd kind first, fun kind => absurd kind second⟩
  cases turn with
  | stay ahead =>
    rw [append_nil]
    exact mid.faithful
  | reject reason pending ready => exact mid.faithful.concat (silent _ _ _ _ (by decide) (by decide))
  | rest ahead pending ready replaces here' settled =>
    refine mid.faithful.concat ⟨fun _ p parent x member own => ?_, fun kind => nomatch kind⟩
    obtain ⟨g, held, rfl, _⟩ := mid.replaced lineage here ready parent replaces settled
    rcases (mid.booked.held_events held).2 x member own with kind | kind
    · rw [kind]
      decide
    · rw [kind]
      decide
  | cancel resting due => exact mid.faithful.concat (silent _ _ _ _ (by decide) (by decide))
  | part ahead qty resting early positive less => exact mid.faithful.concat (fill qty early)
  | whole resting early positive =>
    have first := mid.faithful.concat (fill h.order.remaining1e6 early)
    have both := first.concat (silent _ .filled .none 0 (by decide) (by decide))
    rwa [append_assoc] at both

theorem Midway.turn (booked : Booked filed n start past) (lineage : Lineage filed n start) (lines : Lines filed start past) (lone : Lone tNs start)
    (mid : Midway filed n venue tNs start past (pre ++ h :: post) told)
    (turn : Turn venue tNs (pre ++ h :: post) h o new) :
    Midway filed n venue tNs start past (pre ++ o.toList ++ post) (told ++ new) := by
  have here : h ∈ pre ++ h :: post := mem_append_right _ mem_cons_self
  refine ⟨mid.booked.turn turn, fun k member => ?_, fun u rested => ?_, fun u p rested parent => ?_,
    fun u v p first second parent parent' => ?_, mid.faithful_turn lineage turn⟩
  · rcases mem_turn h member with ⟨_, other⟩ | own
    · exact mid.origin k other
    · rw [own] at turn
      obtain ⟨g, listed, stems, pending⟩ := mid.origin h here
      exact ⟨g, listed, stems.trans turn.stems, fun waits => pending (turn.pending waits)⟩
  · rcases rested_append rested with before | now
    · exact mid.fresh u before
    obtain ⟨rfl, pending, ready, _⟩ := turn.rested now
    obtain ⟨g, listed, stems, waits⟩ := mid.origin h here
    refine .inr ⟨g, listed, stems.uid.symm, waits pending, ?_⟩
    rw [← stems.ready]
    exact ready
  · rcases rested_append rested with before | now
    · obtain ⟨first, leaves⟩ := mid.leaving u p before parent
      refine ⟨first.mono new, fun k member same => ?_⟩
      rcases mem_turn h member with ⟨_, other⟩ | own
      · exact leaves k other same
      rw [own] at turn
      have stems := turn.stems
      obtain ⟨resting, due, venue⟩ := leaves h here (stems.uid.symm.trans same)
      rw [stems.cancel, stems.sym]
      exact ⟨turn.stays_resting resting, due, venue⟩
    · obtain ⟨rfl, _, ready, venue, replaces, settled⟩ := turn.rested now
      obtain ⟨g, held, rfl, resting, due, sym⟩ := mid.replaced lineage here ready parent replaces settled
      refine ⟨((mid.booked.held_events held).1 resting).mono new, fun k member same => ?_⟩
      rcases mem_turn h member with ⟨_, other⟩ | own
      · obtain rfl := mid.booked.unique other held same
        rw [sym]
        exact ⟨resting, due, venue⟩
      · -- an order is not its own parent
        rw [own] at turn
        have older := (lineage.parents h.uid (mid.booked.below h here) g.uid parent).1
        have := turn.stems.uid
        omega
  · have sibling : ∀ v, Rested told v → (filed v).parent = some p → Rested new h.uid →
        (filed h.uid).parent = some p → v = h.uid := by
      intro v before parent' now parent
      obtain ⟨_, pending, ready, _, replaces, settled⟩ := turn.rested now
      obtain ⟨g, held, same, _⟩ := mid.replaced lineage here ready parent replaces settled
      obtain ⟨g₀, listed, stems, _⟩ := mid.origin g held
      rcases mid.fresh v before with past | ⟨k, listed', rfl, waits, due⟩
      · exact absurd (stems.uid.symm.trans same) ((lines.left v p past parent').2 g₀ listed)
      obtain ⟨h₀, listed'', stems', pending'⟩ := mid.origin h here
      have twin : h₀.uid = h.uid := stems'.uid.symm
      rw [stems'.ready] at ready
      refine congrArg Held.uid (lineage.siblings booked lone listed'' listed' listed (pending' pending) waits ready
        due ?_ ?_) |>.symm.trans twin
      · rw [twin, parent, ← stems.uid, same]
      · rw [parent', ← stems.uid, same]
    rcases rested_append first with before | now
    · rcases rested_append second with before' | now'
      · exact mid.single u v p before before' parent parent'
      · obtain ⟨rfl, _⟩ := turn.rested now'
        exact sibling u before parent now' parent'
    · obtain ⟨rfl, _⟩ := turn.rested now
      rcases rested_append second with before' | now'
      · exact (sibling v before' parent' now parent).symm
      · exact (turn.rested now').1.symm

theorem Midway.finish {orders : List Held} (mid : Midway filed n venue tNs start past orders told)
    (clear : ∀ h ∈ orders, symbolVenueByte h.order.sym = venue → ¬ Due tNs h.order) : Lines filed orders told := by
  refine ⟨fun u p rested parent => ?_, mid.single, mid.faithful⟩
  obtain ⟨first, leaves⟩ := mid.leaving u p rested parent
  refine ⟨first, fun h member same => ?_⟩
  obtain ⟨resting, due, venue⟩ := leaves h member same
  exact clear h member venue (.inr ⟨resting, due⟩)

theorem Lineage.turned {a b : List Held} (lineage : Lineage filed n a) (turned : Turned venue tNs a b new) :
    Lineage filed n b := by
  refine ⟨lineage.parents, lineage.ids, turned.each (fun turn link => ?_) lineage.links,
    turned.each (fun turn cancels => ?_) lineage.cancels⟩
  · rw [turn.stems.link, turn.stems.uid]
    exact link
  · rw [turn.stems.cancel, turn.stems.uid]
    exact cancels

end Midway

section Requests

variable {filed again : Nat → Filing} {n : Nat} {orders after pre post : List Held} {told : List Told} {h : Held}

theorem Lines.request (booked : Booked filed n orders told) (lineage : Lineage filed n orders)
    (lines : Lines filed orders told) (parents : ∀ u < n, (again u).parent = (filed u).parent)
    (uids : ∀ k ∈ after, (∃ h ∈ orders, h.uid = k.uid) ∨ n ≤ k.uid) : Lines again after told := by
  have known : ∀ u, Rested told u → u < n := by
    rintro u ⟨x, member, rfl, _⟩
    exact booked.named x member
  refine ⟨fun u p rested parent => ?_, fun u v p first second parent parent' => ?_, fun before e start => ?_⟩
  · have lt := known u rested
    rw [parents u lt] at parent
    obtain ⟨earlier, absent⟩ := lines.left u p rested parent
    refine ⟨earlier, fun k member same => ?_⟩
    rcases uids k member with ⟨h, listed, own⟩ | new
    · exact absent h listed (own.trans same)
    · have older := (lineage.parents u lt p parent).1
      omega
  · rw [parents u (known u first)] at parent
    rw [parents v (known v second)] at parent'
    exact lines.single u v p first second parent parent'
  · have earlier : ∀ x ∈ before ++ [e], x.uid < n := fun x member => booked.named x (start.subset member)
    have lt := earlier e (by simp)
    obtain ⟨rests, fills⟩ := lines.faithful before e start
    refine ⟨fun kind p parent => ?_, fun kind u parent x member own => ?_⟩
    · rw [parents e.uid lt] at parent
      exact rests kind p parent
    have lt' := earlier x (mem_append_left _ member)
    rw [own] at lt'
    rw [parents u lt'] at parent
    exact fills kind u parent x member own

theorem Lineage.cancelBy (lineage : Lineage filed n (pre ++ h :: post)) (effectiveNs : Nat) (reason : EventReason)
    (places : ∀ u, (again u).place = (filed u).place) (parents : ∀ u, (again u).parent = (filed u).parent) :
    Lineage again n (pre ++ h.cancelBy effectiveNs reason :: post) := by
  obtain ⟨why, scheduled⟩ := h.cancelBy_eq effectiveNs reason
  obtain ⟨older, ids, links, cancels⟩ := lineage
  have here : h ∈ pre ++ h :: post := mem_append_right _ mem_cons_self
  rw [scheduled]
  refine ⟨?_, ?_, fun k member => ?_, fun k member u lt parent => ?_⟩
  · simpa only [places, parents] using older
  · simpa only [places] using ids
  · simp only [places, parents]
    rcases mem_swapped h member with rfl | listed
    · exact links h here
    · exact links k listed
  · rw [parents] at parent
    rw [places]
    rcases mem_swapped h member with rfl | listed
    · exact (Nat.min_le_left _ _).trans (cancels h here u lt parent)
    · exact cancels k listed u lt parent

theorem Lineage.append (booked : Booked filed n orders told) (lineage : Lineage filed n orders) {p : QueuePlace}
    {link : Nat} {parent : Option Nat}
    (fresh : p.clientOid = 0 ∨ ∀ u < n, (filed u).place.slot = p.slot → (filed u).place.clientOid ≠ p.clientOid)
    (later : ∀ u < n, (filed u).place.readyNs ≤ p.readyNs)
    (links : link = parent.elim 0 fun q => (filed q).place.clientOid)
    (named : ∀ q, parent = some q → q < n ∧ (filed q).place.clientOid ≠ 0 ∧ (filed q).place.slot = p.slot ∧
      (filed q).place.sym = p.sym ∧ ∀ h ∈ orders, h.uid = q → h.order.cancelNs ≤ p.readyNs) :
    Lineage (QueueDesk.file filed n p parent) (n + 1) (orders ++ [p.held link n]) := by
  have old : ∀ u, u < n → file filed n p parent u = filed u := fun u lt => file_old lt p parent
  have new := file_new filed n p parent
  have cases : ∀ u < n + 1, u < n ∨ u = n := fun u lt => by omega
  refine ⟨fun u lt q ancestor => ?_, fun u lt v lt' slots oids real => ?_, fun k member => ?_,
    fun k member u lt ancestor => ?_⟩
  · rcases cases u lt with below | rfl
    · rw [old u below] at ancestor ⊢
      have older := lineage.parents u below q ancestor
      rw [old q (older.1.trans below)]
      exact older
    · rw [new] at ancestor ⊢
      obtain ⟨below, oid, slot, sym, _⟩ := named q ancestor
      rw [old q below]
      exact ⟨below, oid, slot, sym, later q below⟩
  · rcases cases u lt with below | rfl
    · rw [old u below] at slots oids real
      rcases cases v lt' with below' | rfl
      · rw [old v below'] at slots oids
        exact lineage.ids u below v below' slots oids real
      rw [new] at slots oids
      rcases fresh with zero | fresh
      · exact absurd (oids.trans zero) real
      · exact absurd oids (fresh u below slots)
    · rcases cases v lt' with below' | rfl
      · rw [new] at slots oids real
        rw [old v below'] at slots oids
        rcases fresh with zero | fresh
        · exact absurd zero real
        · exact absurd oids.symm (fresh v below' slots.symm)
      · rfl
  · rcases mem_append.mp member with listed | last
    · have below := booked.below k listed
      have same := lineage.links k listed
      rw [old k.uid below]
      cases ancestor : (filed k.uid).parent with
      | none =>
        rw [ancestor] at same
        exact same
      | some q =>
        rw [ancestor] at same
        have older := (lineage.parents k.uid below q ancestor).1
        rw [elim_some, old q (older.trans below)]
        exact same
    · obtain rfl := mem_singleton.mp last
      change link = (file filed n p parent n).parent.elim 0 _
      rw [new, links]
      cases parent with
      | none => rfl
      | some q =>
        rw [elim_some, elim_some, old q (named q rfl).1]
  · rcases cases u lt with below | rfl
    · rw [old u below] at ancestor ⊢
      rcases mem_append.mp member with listed | last
      · exact lineage.cancels k listed u below ancestor
      obtain rfl := mem_singleton.mp last
      have older := (lineage.parents u below _ ancestor).1
      change n < u at older
      omega
    · rw [new] at ancestor ⊢
      rcases mem_append.mp member with listed | last
      · exact (named k.uid ancestor).2.2.2.2 k listed rfl
      · obtain rfl := mem_singleton.mp last
        exact absurd (named _ ancestor).1 (Nat.lt_irrefl _)

end Requests

/-! ### Every orderly run -/

/-- The slot has not used the id before, unless it is zero. -/
def NewId (d : QueueDesk) (p : QueuePlace) : Prop :=
  p.clientOid = 0 ∨ ∀ u < d.book.filed, (d.filed u).place.slot = p.slot → (d.filed u).place.clientOid ≠ p.clientOid

/-- Nothing accepted is ready after it. -/
def Later (d : QueueDesk) (p : QueuePlace) : Prop := ∀ u < d.book.filed, (d.filed u).place.readyNs ≤ p.readyNs

/-- An accepted order takes a new id and is ready no sooner than the others. -/
def Proper (d : QueueDesk) (op : QueueOp) : Prop :=
  match op with
  | .place p => d.book.filed < (d.take op).book.filed → NewId d p ∧ Later d p
  | .modify _ new => d.book.filed < (d.take op).book.filed → NewId d new ∧ Later d new
  | _ => True

/-- Moreover an accepted modify names a non-zero id and keeps its symbol, and no record meets two
replacements of one held order. -/
def Orderly (d : QueueDesk) (op : QueueOp) : Prop :=
  Proper d op ∧
    match op with
    | .modify prevOid new => d.book.filed < (d.take op).book.filed → prevOid ≠ 0 ∧
        ∀ h ∈ d.book.orders, h.named prevOid new.slot = true → h.order.sym = new.sym
    | .onBook _ _ tNs => Lone tNs d.book.orders
    | .onPrint _ _ _ _ tNs => Lone tNs d.book.orders
    | _ => True

instance (tNs : Nat) (orders : List Held) : Decidable (Lone tNs orders) :=
  inferInstanceAs (Decidable (∀ h ∈ orders, ∀ k ∈ orders, _))

instance (d : QueueDesk) (p : QueuePlace) : Decidable (NewId d p) := inferInstanceAs (Decidable (_ ∨ ∀ u < _, _))

instance (d : QueueDesk) (p : QueuePlace) : Decidable (Later d p) := inferInstanceAs (Decidable (∀ u < _, _))

instance Proper.decidable (d : QueueDesk) : (op : QueueOp) → Decidable (Proper d op)
  | .place p => inferInstanceAs (Decidable (_ < _ → NewId d p ∧ Later d p))
  | .modify _ new => inferInstanceAs (Decidable (_ < _ → NewId d new ∧ Later d new))
  | .track _ | .cancel _ _ _ | .onBook _ _ _ | .onPrint _ _ _ _ _ => .isTrue trivial

instance Orderly.decidable (d : QueueDesk) : (op : QueueOp) → Decidable (Orderly d op)
  | .modify prevOid new => inferInstanceAs (Decidable (Proper d _ ∧ (_ < _ → prevOid ≠ 0 ∧
      ∀ h ∈ d.book.orders, h.named prevOid new.slot = true → h.order.sym = new.sym)))
  | .onBook _ _ tNs => inferInstanceAs (Decidable (Proper d _ ∧ Lone tNs d.book.orders))
  | .onPrint _ _ _ _ tNs => inferInstanceAs (Decidable (Proper d _ ∧ Lone tNs d.book.orders))
  | .track _ | .place _ | .cancel _ _ _ => inferInstanceAs (Decidable (Proper d _ ∧ True))

theorem Orderly.lone {sym : SymbolId} {tNs : Nat} (orderly : Orderly d op)
    (record : op.record = some (sym, tNs)) : Lone tNs d.book.orders := by
  cases op with
  | onBook s touch t =>
    obtain ⟨rfl, rfl⟩ := Prod.mk.inj (some.inj record)
    exact orderly.2
  | onPrint s px qty sell t =>
    obtain ⟨rfl, rfl⟩ := Prod.mk.inj (some.inj record)
    exact orderly.2
  | _ => exact nomatch record

structure Kin (d : QueueDesk) (past : List Told) : Prop where
  sound : Sound d past
  lineage : Lineage d.filed d.book.filed d.book.orders
  lines : Lines d.filed d.book.orders past

theorem Kin.new : Kin .new [] := by
  refine ⟨Sound.new, ⟨nofun, nofun, nofun, nofun⟩, ?_⟩
  have silent : ∀ u, ¬ Rested [] u := nofun
  exact ⟨fun u p rested => absurd rested (silent u), fun u v p rested => absurd rested (silent u), clean_nil _⟩

theorem Kin.record {past : List Told} (kin : Kin d past) {sym : SymbolId} {tNs : Nat}
    (record : op.record = some (sym, tNs)) (orderly : Orderly d op) :
    Lineage (d.take op).filed (d.take op).book.filed (d.take op).book.orders ∧
      Lines (d.take op).filed (d.take op).book.orders (past ++ (d.act op).2) := by
  obtain ⟨sound, lineage, lines⟩ := kin
  obtain ⟨new, moved, clear, filed⟩ := sound.record_moved record
  have next : Sound (d.act op).1 (past ++ (d.act op).2) := Sound.act op d past sound
  have told : (d.act op).2 = new := (sound.drain moved).1
  rw [filed, moved.filed, told]
  refine ⟨lineage.turned moved.turned, ?_⟩
  have mid := moved.turned.keeps (I := Midway d.filed d.book.filed (symbolVenueByte sym) tNs d.book.orders past)
    (fun mid turn => mid.turn sound.booked lineage lines (orderly.lone record) turn) (Midway.begin sound.booked lines)
  exact mid.finish fun h member venue => clear h.order.sym (next.tracked h member) venue h member rfl

theorem dueBy_parents (filed : Nat → Filing) (h : Held) (effectiveNs uid : Nat) :
    (QueueDesk.dueBy filed (some h) effectiveNs uid).parent = (filed uid).parent := by
  unfold dueBy
  dsimp only
  rcases eq_or_ne uid h.uid with rfl | ne
  · rw [Function.update_self]
  · rw [Function.update_of_ne ne]

theorem uid_scheduled {pre post : List Held} {h : Held} {effectiveNs : Nat} {reason : EventReason}
    (member : k ∈ pre ++ h.cancelBy effectiveNs reason :: post) : ∃ g ∈ pre ++ h :: post, g.uid = k.uid := by
  obtain ⟨why, scheduled⟩ := h.cancelBy_eq effectiveNs reason
  rw [scheduled] at member
  rcases mem_swapped h member with rfl | listed
  · exact ⟨h, mem_append_right _ mem_cons_self, rfl⟩
  · exact ⟨k, listed, rfl⟩

theorem Kin.request {past : List Told} (kin : Kin d past) (request : op.record = none) (orderly : Orderly d op) :
    Lineage (d.take op).filed (d.take op).book.filed (d.take op).book.orders ∧
      Lines (d.take op).filed (d.take op).book.orders past := by
  obtain ⟨sound, lineage, lines⟩ := kin
  have requested := take_requested d request
  generalize taken : d.take op = after at requested
  cases requested with
  | refused refused =>
    rw [refused.filed, refused.orders]
    exact ⟨lineage, lines⟩
  | tracked _ _ orders filed =>
    rw [filed, orders]
    exact ⟨lineage, lines⟩
  | placed filed =>
    obtain ⟨fresh, later⟩ := orderly.1 (by rw [taken, filed.filed]; exact Nat.lt_succ_self _)
    rw [filed.filed, filed.orders]
    refine ⟨lineage.append sound.booked fresh later rfl fun q none => (nomatch none),
      lines.request sound.booked lineage (fun u lt => ?_) fun k member => ?_⟩
    · exact congrArg Filing.parent (file_old lt _ none)
    rcases mem_append.mp member with listed | last
    · exact .inl ⟨k, listed, rfl⟩
    · rw [mem_singleton.mp last]
      exact .inr (Nat.le_refl _)
  | canceled split named =>
    rename_i pre post h clientOid slot effectiveNs
    rw [split] at lineage lines
    have booked := sound.booked
    rw [split] at booked
    exact ⟨lineage.cancelBy effectiveNs .cancelRequested (Sound.dueBy_places d.filed h effectiveNs)
      (dueBy_parents d.filed h effectiveNs), lines.request booked lineage
      (fun u _ => dueBy_parents d.filed h effectiveNs u) fun k member => .inl (uid_scheduled member)⟩
  | torn split named refused =>
    rename_i pre post h c prevOid new
    rw [split] at lineage lines
    have booked := sound.booked
    rw [split] at booked
    rw [refused.filed, refused.orders]
    exact ⟨lineage.cancelBy new.readyNs .replaced (fun _ => rfl) fun _ => rfl,
      lines.request booked lineage (fun _ _ => rfl) fun k member => .inl (uid_scheduled member)⟩
  | replaced split named only filed =>
    rename_i pre post h c prevOid new
    have accepted : d.book.filed < (d.take (.modify prevOid new)).book.filed := by
      rw [taken, filed.filed]
      exact Nat.lt_succ_self _
    obtain ⟨fresh, later⟩ := orderly.1 accepted
    obtain ⟨real, syms⟩ := orderly.2 accepted
    have here : h ∈ d.book.orders := by
      rw [split]
      exact mem_append_right _ mem_cons_self
    have agrees := sound.booked.agrees h here
    have below := sound.booked.below h here
    obtain ⟨oid, slot⟩ : h.order.clientOid = prevOid ∧ h.order.slot = new.slot := by simpa [Held.named] using named
    have places := Sound.dueBy_places d.filed h new.readyNs
    have scheduled := sound.scheduled split new.readyNs .replaced places (fun uid ne => Function.update_of_ne ne _ _) (Sound.dueBy_due d.filed h new.readyNs)
    rw [split] at lineage lines
    have booked := sound.booked
    rw [split] at booked
    have line := lineage.cancelBy new.readyNs .replaced places (dueBy_parents d.filed h new.readyNs)
    rw [filed.filed, filed.orders]
    refine ⟨line.append scheduled.booked ?_ ?_ ?_ fun q parent => ?_, ?_⟩
    · simpa only [NewId, places] using fresh
    · simpa only [Later, places] using later
    · rw [elim_some, places, ← agrees.clientOid, oid]
    · obtain rfl := some.inj parent
      rw [places, ← agrees.clientOid, ← agrees.slot, ← agrees.sym, oid, slot]
      refine ⟨below, real, rfl, syms h here named, fun k member same => ?_⟩
      obtain ⟨why, eq⟩ := h.cancelBy_eq new.readyNs .replaced
      have own := scheduled.booked.unique member
        (mem_append_right pre (mem_cons_self (a := h.cancelBy new.readyNs .replaced) (l := post)))
        (same.trans (by rw [eq]))
      rw [own, eq]
      exact Nat.min_le_right _ _
    · refine lines.request booked lineage (fun u lt => ?_) fun k member => ?_
      · exact (congrArg Filing.parent (file_old lt _ _)).trans (dueBy_parents d.filed h new.readyNs u)
      rcases mem_append.mp member with listed | last
      · exact .inl (uid_scheduled listed)
      · rw [mem_singleton.mp last]
        exact .inr (Nat.le_refl _)

theorem Kin.act {past : List Told} (kin : Kin d past) (orderly : Orderly d op) :
    Kin (d.act op).1 (past ++ (d.act op).2) := by
  have sound : Sound (d.act op).1 (past ++ (d.act op).2) := Sound.act op d past kin.sound
  cases record : op.record with
  | some at' =>
    obtain ⟨lineage, lines⟩ := kin.record record orderly
    exact ⟨sound, lineage, lines⟩
  | none =>
    obtain ⟨lineage, lines⟩ := kin.request record orderly
    have silent := (take_requested d record).silent
    have nothing : (d.act op).2 = [] :=
      congrArg Prod.snd (drain_silent ((congrArg RingBuffer.len silent.ring).trans kin.sound.drained))
    refine ⟨sound, lineage, ?_⟩
    rw [nothing, append_nil]
    exact lines

/-- In every orderly run: a replacement rests only while the order it names is there, that order is not
filled afterwards, and of all that descend from one order at most one rests. -/
theorem quote_family (ops : List QueueOp)
    (orderly : Along (watch QueueDesk.act) (fun s op => Orderly s.1 op) (QueueDesk.new, []) ops) :
    let s := run (watch QueueDesk.act) (QueueDesk.new, []) ops
    Clean (Faithful s.1.filed) s.2 ∧
    ∀ a, ∀ h ∈ s.1.book.orders, ∀ k ∈ s.1.book.orders, h.order.state = .resting → k.order.state = .resting →
      Descends (fun u => (s.1.filed u).parent) a h.uid → Descends (fun u => (s.1.filed u).parent) a k.uid → h = k := by
  intro s
  have kin : Kin s.1 s.2 := run_invariant_along (I := fun s : QueueDesk × List Told => Kin s.1 s.2) Kin.new
    (fun s op orderly kin => kin.act orderly) orderly
  obtain ⟨sound, _, lines⟩ := kin
  refine ⟨lines.faithful, fun a h first k second resting resting' path path' => ?_⟩
  refine sound.booked.unique first second ?_
  exact Descends.top_unique (Rested s.2) (fun u => ∃ h ∈ s.1.book.orders, h.uid = u)
    (fun u p rested parent => (lines.left u p rested parent).1) lines.single
    (fun u p rested parent ⟨h, member, same⟩ => (lines.left u p rested parent).2 h member same) path path'
    ((sound.booked.held_events first).1 resting) ((sound.booked.held_events second).1 resting')
    ⟨h, first, rfl⟩ ⟨k, second, rfl⟩

def requote (first second : Nat × Nat) : List QueueOp :=
  [.place ⟨7, 67108865, .bid, 0, 100000000, 5000000, 10, never⟩,
    .onBook 67108865 ⟨100000000, 101000000, 5000000, 5000000⟩ 12,
    .modify first.1 ⟨8, 67108865, .bid, 0, 99000000, 5000000, first.2, never⟩,
    .modify second.1 ⟨9, 67108865, .bid, 0, 98000000, 5000000, second.2, never⟩,
    .onBook 67108865 ⟨100000000, 101000000, 5000000, 5000000⟩ 25]

/-- A bid replaced twice in a row, both due in one record: the last one is left. -/
theorem requote_chain_rests_once :
    let s := run (watch QueueDesk.act) (QueueDesk.new, []) (requote (7, 20) (8, 21))
    s.1.book.orders.map (fun h => (h.uid, h.order.state)) = [(2, .resting)] ∧
    ∀ a, ∀ h ∈ s.1.book.orders, ∀ k ∈ s.1.book.orders, h.order.state = .resting → k.order.state = .resting →
      Descends (fun u => (s.1.filed u).parent) a h.uid → Descends (fun u => (s.1.filed u).parent) a k.uid → h = k :=
  ⟨by decide +kernel, (quote_family (requote (7, 20) (8, 21)) (by decide +kernel)).2⟩

/-- Two replacements of one resting bid, both due in one record: it is held until both have come to rest. -/
theorem two_replacements_rest :
    Along (watch QueueDesk.act) (fun s op => Proper s.1 op) (QueueDesk.new, []) (requote (7, 20) (7, 21)) ∧
    let s := run (watch QueueDesk.act) (QueueDesk.new, []) (requote (7, 20) (7, 21))
    ∃ h ∈ s.1.book.orders, ∃ k ∈ s.1.book.orders, h ≠ k ∧ h.order.state = .resting ∧ k.order.state = .resting ∧
      Descends (fun u => (s.1.filed u).parent) 0 h.uid ∧ Descends (fun u => (s.1.filed u).parent) 0 k.uid := by
  refine ⟨by decide +kernel, ?_⟩
  intro s
  have found : ∃ h ∈ s.1.book.orders, ∃ k ∈ s.1.book.orders, h ≠ k ∧ h.order.state = .resting ∧
      k.order.state = .resting ∧ (s.1.filed h.uid).parent = some 0 ∧ (s.1.filed k.uid).parent = some 0 := by
    decide +kernel
  obtain ⟨h, first, k, second, ne, resting, resting', parent, parent'⟩ := found
  exact ⟨h, first, k, second, ne, resting, resting', .single parent, .single parent'⟩

end TradingEngine.Queue
