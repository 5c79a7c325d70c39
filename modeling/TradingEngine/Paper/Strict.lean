import TradingEngine.Paper.Matcher

/-!
# The life of a paper order

What may happen to one order of the open table, and that every run of the matcher keeps to it.
-/

namespace TradingEngine.Paper
open Base CoreTypes Queue Amm List

variable {uid : Nat} {o : Pending}

/-- An order that is open: the terms of its last placement or modify, the expiry it was placed with, and what was
filled since. -/
structure Terms where
  side : Side
  limit : Int
  asked : Int
  activeNs : Nat
  expiryNs : Nat
  done : Int
  deriving DecidableEq, Repr

def Terms.lapsed (t : Terms) (nowNs : Nat) : Prop := t.expiryNs ≠ 0 ∧ t.expiryNs ≤ nowNs

def Ending.Allowed (t : Terms) : Ending → Prop
  | .filled => t.done = t.asked
  | .canceled => True
  | .expired nowNs => t.lapsed nowNs

/-- The histories an order may have, and what is left of it. Nothing follows an end. -/
inductive Story : List Mark → Option Terms → Prop where
  | placed {side : Side} {limit asked : Int} {activeNs expiryNs : Nat} (size : 0 < asked) :
      Story [.placed side limit asked activeNs expiryNs] (some ⟨side, limit, asked, activeNs, expiryNs, 0⟩)
  | modified {history : List Mark} {t : Terms} {limit asked : Int} {activeNs : Nat} (before : Story history (some t))
      (size : 0 < asked) :
      Story (history ++ [.modified limit asked activeNs]) (some { t with limit, asked, activeNs, done := 0 })
  | filled {history : List Mark} {t : Terms} {nowNs : Nat} {px qty : Int} (before : Story history (some t))
      (active : t.activeNs ≤ nowNs) (alive : ¬ t.lapsed nowNs) (price : noWorse t.side px t.limit = true) (size : 0 < qty)
      (room : t.done + qty ≤ t.asked) :
      Story (history ++ [.filled t.side nowNs px qty]) (some { t with done := t.done + qty })
  | ended {history : List Mark} {t : Terms} {how : Ending} (before : Story history (some t)) (allowed : how.Allowed t) :
      Story (history ++ [.ended how]) none

def marksOf (uid : Nat) (log : List (Nat × Mark)) : List Mark := log.filterMap fun e => if e.1 = uid then some e.2 else none

theorem marksOf_append (uid : Nat) (xs ys : List (Nat × Mark)) :
    marksOf uid (xs ++ ys) = marksOf uid xs ++ marksOf uid ys := filterMap_append

theorem marksOf_own (uid : Nat) (marks : List Mark) : marksOf uid (marks.map fun m => (uid, m)) = marks := by
  induction marks with
  | nil => rfl
  | cons m rest ih =>
    rw [marksOf] at ih ⊢
    rw [map_cons, filterMap_cons]
    simp [ih]

theorem marksOf_other {other : Nat} (apart : other ≠ uid) (marks : List Mark) :
    marksOf uid (marks.map fun m => (other, m)) = [] := by
  induction marks with
  | nil => rfl
  | cons m rest ih =>
    rw [marksOf] at ih ⊢
    rw [map_cons, filterMap_cons]
    simp [ih, apart]

structure Carries (p : Pending) (t : Terms) : Prop where
  side : p.ident.side = t.side
  limit : p.px1e6 = t.limit
  left : p.remaining1e6 = t.asked - t.done
  active : p.tActiveNs = t.activeNs
  expiry : p.expiryNs = t.expiryNs

def entryOf (uid : Nat) (table : List Pending) : Option Pending := table.find? fun p => p.uid = uid

def Agrees : Option Pending → Option Terms → Prop
  | some p, some t => Carries p t ∧ 0 < p.remaining1e6
  | none, none => True
  | _, _ => False

/-- The table holds the orders that have not ended, in the order of their acceptance. -/
structure Kept (accepted : Nat) (table : List Pending) (log : List (Nat × Mark)) : Prop where
  ordered : (table.map Pending.uid).Pairwise (· < ·)
  known : ∀ p ∈ table, p.uid < accepted
  lives : ∀ uid < accepted, ∃ left, Story (marksOf uid log) left ∧ Agrees (entryOf uid table) left
  fresh : ∀ uid, accepted ≤ uid → marksOf uid log = []

section Change

variable {accepted : Nat} {pre post : List Pending} {p : Pending} {log : List (Nat × Mark)}

theorem Kept.apart (kept : Kept accepted (pre ++ p :: post) log) :
    (∀ q ∈ pre, q.uid ≠ p.uid) ∧ ∀ q ∈ post, q.uid ≠ p.uid := by
  have ordered := kept.ordered
  rw [map_append, map_cons, pairwise_append] at ordered
  obtain ⟨_, tail, cross⟩ := ordered
  refine ⟨fun q member => ?_, fun q member => ?_⟩
  · have := cross q.uid (mem_map_of_mem member) p.uid mem_cons_self
    omega
  · have := (pairwise_cons.mp tail).1 q.uid (mem_map_of_mem member)
    omega

theorem entryOf_append_of_absent {xs ys : List Pending} (absent : ∀ q ∈ xs, q.uid ≠ uid) :
    entryOf uid (xs ++ ys) = entryOf uid ys := by
  unfold entryOf
  rw [find?_append, find?_eq_none.mpr (by simpa using absent)]
  rfl

theorem entryOf_absent {xs : List Pending} (absent : ∀ q ∈ xs, q.uid ≠ uid) : entryOf uid xs = none :=
  find?_eq_none.mpr (by simpa using absent)

theorem entryOf_changed {left : Option Pending} (same : ∀ q, left = some q → q.uid = p.uid)
    (before : ∀ q ∈ pre, q.uid ≠ p.uid) (behind : ∀ q ∈ post, q.uid ≠ p.uid) :
    entryOf p.uid (pre ++ left.toList ++ post) = left := by
  rw [append_assoc, entryOf_append_of_absent before]
  cases left with
  | none => exact entryOf_absent behind
  | some q => exact find?_cons_of_pos (by simpa using same q rfl)

theorem entryOf_others {left : Option Pending} (same : ∀ q, left = some q → q.uid = p.uid)
    (other : uid ≠ p.uid) : entryOf uid (pre ++ left.toList ++ post) = entryOf uid (pre ++ p :: post) := by
  have own : decide (p.uid = uid) = false := by simpa using Ne.symm other
  have gone : find? (fun q => decide (q.uid = uid)) left.toList = none := by
    cases left with
    | none => rfl
    | some q =>
      have differs : q.uid ≠ uid := by rw [same q rfl]; exact Ne.symm other
      exact find?_cons_of_neg (by simpa using differs)
  unfold entryOf
  simp only [append_assoc, find?_append, find?_cons, own, gone, Option.none_or]

theorem Kept.change {left : Option Pending} {marks : List Mark} (kept : Kept accepted (pre ++ p :: post) log)
    (same : ∀ q, left = some q → q.uid = p.uid)
    (next : ∀ history t, Story history (some t) → Carries p t → 0 < p.remaining1e6 →
      ∃ after, Story (history ++ marks) after ∧ Agrees left after) :
    Kept accepted (pre ++ left.toList ++ post) (log ++ marks.map fun m => (p.uid, m)) := by
  obtain ⟨before, behind⟩ := kept.apart
  have known : p.uid < accepted := kept.known p (by simp)
  refine ⟨?_, ?_, fun uid old => ?_, fun uid new => ?_⟩
  · have ordered := kept.ordered
    refine ordered.sublist ?_
    rw [append_assoc, map_append, map_append, map_append, map_cons]
    refine List.Sublist.append_left ?_ _
    cases left with
    | none => exact sublist_cons_self _ _
    | some q => rw [← same q rfl]; exact List.Sublist.refl _
  · intro q member
    rcases mem_append.mp member with early | late
    · rcases mem_append.mp early with first | here
      · exact kept.known q (by simp [first])
      · rw [same q (Option.mem_toList.mp here)]
        exact known
    · exact kept.known q (by simp [late])
  · obtain ⟨state, story, agrees⟩ := kept.lives uid old
    rw [marksOf_append]
    by_cases own : uid = p.uid
    · subst own
      have found : entryOf p.uid (pre ++ p :: post) = some p := by
        have stays : entryOf p.uid (pre ++ (some p).toList ++ post) = some p :=
          entryOf_changed (fun q is => by rw [Option.some.inj is]) before behind
        simpa using stays
      rw [found] at agrees
      rw [marksOf_own, entryOf_changed same before behind]
      match state, agrees with
      | some t, ⟨carries, positive⟩ => exact next _ t story carries positive
    · rw [marksOf_other (Ne.symm own), append_nil, entryOf_others same own]
      exact ⟨state, story, agrees⟩
  · rw [marksOf_append, kept.fresh uid new, marksOf_other (by omega)]
    rfl

end Change

theorem not_lapsed {p : Pending} {t : Terms} {nowNs : Nat} (carries : Carries p t)
    (alive : expiredAt nowNs p.expiryNs = false) : ¬ t.lapsed nowNs := by
  rw [Terms.lapsed, ← carries.expiry]
  simpa [expiredAt] using alive

theorem lapsed_of_expired {p : Pending} {t : Terms} {nowNs : Nat} (carries : Carries p t)
    (expired : expiredAt nowNs p.expiryNs = true) : t.lapsed nowNs := by
  rw [Terms.lapsed, ← carries.expiry]
  simpa [expiredAt] using expired

/-- What a judge must have checked before it fills an entry. -/
structure MayFill (p : Pending) (nowNs : Nat) (px q : Int) : Prop where
  active : p.tActiveNs ≤ nowNs
  alive : expiredAt nowNs p.expiryNs = false
  price : noWorse p.ident.side px p.px1e6 = true
  size : 0 < q
  room : q ≤ p.remaining1e6

section Fill

variable {p : Pending} {t : Terms} {history : List Mark} {nowNs : Nat} {px q : Int}

theorem Story.fill (story : Story history (some t)) (carries : Carries p t) (may : MayFill p nowNs px q) :
    Story (history ++ [.filled p.ident.side nowNs px q]) (some { t with done := t.done + q }) := by
  obtain ⟨side, limit, left, active, expiry⟩ := carries
  rw [side]
  refine story.filled (by rw [← active]; exact may.active) (not_lapsed ⟨side, limit, left, active, expiry⟩ may.alive)
    (by rw [← side, ← limit]; exact may.price) may.size ?_
  have room := may.room
  omega

theorem Carries.filled (carries : Carries p t) : Carries { p with remaining1e6 := p.remaining1e6 - q } { t with done := t.done + q } :=
  ⟨carries.side, carries.limit, by have := carries.left; dsimp only; omega, carries.active, carries.expiry⟩

theorem fill_stays (may : MayFill p nowNs px q) (more : 0 < p.remaining1e6 - q) (story : Story history (some t))
    (carries : Carries p t) :
    ∃ after, Story (history ++ [.filled p.ident.side nowNs px q]) after ∧
      Agrees (some { p with remaining1e6 := p.remaining1e6 - q }) after := ⟨_, story.fill carries may, carries.filled, more⟩

theorem fill_leaves (may : MayFill p nowNs px q) (story : Story history (some t)) (carries : Carries p t) :
    ∃ after, Story (history ++ [.filled p.ident.side nowNs px q, .ended (Matcher.gone (p.remaining1e6 - q))]) after ∧
      Agrees none after := by
  have ended : (Matcher.gone (p.remaining1e6 - q)).Allowed { t with done := t.done + q } := by
    unfold Matcher.gone
    split
    · have := carries.left
      show t.done + q = t.asked
      omega
    · trivial
  have told := (story.fill carries may).ended ended
  rw [append_assoc] at told
  exact ⟨none, told, trivial⟩

end Fill

@[simp] theorem pushFillOf_log (t : Tape) (sym : SymbolId) (side : Side) (clientOid strategyId : Nat) (px q : Int)
    (nowNs : Nat) : (t.pushFillOf sym side clientOid strategyId px q nowNs).log = t.log := by
  unfold Tape.pushFillOf
  split <;> rfl

@[simp] theorem note_log (t : Tape) (uid : Nat) (marks : List Mark) :
    (t.note uid marks).log = t.log ++ marks.map fun m => (uid, m) := rfl

@[simp] theorem pushFill_log (t : Tape) (o : Pending) (px q : Int) (nowNs : Nat) :
    (t.pushFill o px q nowNs).log = t.log ++ [(o.uid, .filled o.ident.side nowNs px q)] := by
  simp [Tape.pushFill]

/-- What one visit of a pass may do: the entry's marks, and the entry after them. -/
structure Visited (o : Pending) (before : Tape) (left : Option Pending) (after : Tape) (marks : List Mark) : Prop where
  log : after.log = before.log ++ marks.map fun m => (o.uid, m)
  same : ∀ q, left = some q → q.uid = o.uid
  next : ∀ history t, Story history (some t) → Carries o t → 0 < o.remaining1e6 →
    ∃ state, Story (history ++ marks) state ∧ Agrees left state

theorem Visited.still (o : Pending) (t : Tape) : Visited o t (some o) t [] := by
  refine ⟨by simp, fun q is => by rw [Option.some.inj is], fun history state story carries positive => ?_⟩
  rw [append_nil]
  exact ⟨some state, story, carries, positive⟩

theorem Visited.ends {how : Ending} (t : Tape)
    (allowed : ∀ state, Carries o state → how.Allowed state) : Visited o t none (t.note o.uid [.ended how]) [.ended how] := by
  refine ⟨rfl, nofun, fun history state story carries _ => ?_⟩
  exact ⟨none, story.ended (allowed state carries), trivial⟩

theorem Visited.fills {nowNs : Nat} {px q : Int} (t : Tape) (may : MayFill o nowNs px q)
    (more : 0 < o.remaining1e6 - q) :
    Visited o t (some { o with remaining1e6 := o.remaining1e6 - q }) (t.pushFill o px q nowNs)
      [.filled o.ident.side nowNs px q] :=
  ⟨by simp, fun r is => by rw [← Option.some.inj is], fun _ _ story carries _ => fill_stays may more story carries⟩

theorem Visited.completes {nowNs : Nat} {px q : Int} (t : Tape) (may : MayFill o nowNs px q) :
    Visited o t none ((t.pushFill o px q nowNs).note o.uid [.ended (Matcher.gone (o.remaining1e6 - q))])
      [.filled o.ident.side nowNs px q, .ended (Matcher.gone (o.remaining1e6 - q))] :=
  ⟨by simp, nofun, fun _ _ story carries _ => fill_leaves may story carries⟩

theorem Visited.kept {accepted : Nat} {pre post : List Pending} {before after : Tape}
    {left : Option Pending} {marks : List Mark} (visited : Visited o before left after marks)
    (kept : Kept accepted (pre ++ o :: post) before.log) : Kept accepted (pre ++ left.toList ++ post) after.log := by
  rw [visited.log]
  exact kept.change visited.same visited.next

def Mark.isFill : Mark → Bool
  | .filled _ _ _ _ => true
  | _ => false

def Mark.sizeOn (side : Side) : Mark → Int
  | .filled own _ _ qty => if own = side then qty else 0
  | _ => 0

def fillUids (log : List (Nat × Mark)) : List Nat := log.filterMap fun e => if e.2.isFill then some e.1 else none

def filledOn (side : Side) (log : List (Nat × Mark)) : Int := (log.map fun e => e.2.sizeOn side).sum

theorem fillUids_append (xs ys : List (Nat × Mark)) : fillUids (xs ++ ys) = fillUids xs ++ fillUids ys := filterMap_append

theorem filledOn_append (side : Side) (xs ys : List (Nat × Mark)) :
    filledOn side (xs ++ ys) = filledOn side xs + filledOn side ys := by
  simp [filledOn]

def Quiet (marks : List Mark) : Prop := ∀ m ∈ marks, m.isFill = false

theorem Quiet.nil : Quiet [] := nofun

theorem Quiet.single {m : Mark} (none_here : m.isFill = false) : Quiet [m] := by
  intro n member
  rwa [mem_singleton.mp member]

def Silent (log : List (Nat × Mark)) : Prop := ∀ e ∈ log, e.2.isFill = false

theorem Quiet.silent {marks : List Mark} (quiet : Quiet marks) (uid : Nat) : Silent (marks.map fun m => (uid, m)) := by
  intro e member
  obtain ⟨m, listed, rfl⟩ := mem_map.mp member
  exact quiet m listed

theorem Silent.append {xs ys : List (Nat × Mark)} (first : Silent xs) (second : Silent ys) : Silent (xs ++ ys) := by
  intro e member
  rcases mem_append.mp member with early | late
  · exact first e early
  · exact second e late

theorem Silent.uids {log : List (Nat × Mark)} (silent : Silent log) : fillUids log = [] := by
  unfold fillUids
  rw [filterMap_eq_nil_iff]
  intro e member
  simp [silent e member]

theorem Silent.filledOn {log : List (Nat × Mark)} (silent : Silent log) (side : Side) : filledOn side log = 0 := by
  unfold Paper.filledOn
  refine sum_eq_zero fun x member => ?_
  obtain ⟨⟨uid, m⟩, listed, rfl⟩ := mem_map.mp member
  cases m with
  | filled own nowNs px qty => cases silent _ listed
  | _ => rfl

/-- One fill, and then none. -/
def Deals (marks : List Mark) (side : Side) (nowNs : Nat) (px q : Int) : Prop :=
  ∃ rest, marks = .filled side nowNs px q :: rest ∧ Quiet rest

section Deals

variable {marks : List Mark} {own : Side} {nowNs : Nat} {px q : Int}

theorem Deals.uids (deals : Deals marks own nowNs px q) (uid : Nat) :
    fillUids (marks.map fun m => (uid, m)) = [uid] := by
  obtain ⟨rest, rfl, quiet⟩ := deals
  have none_later := (quiet.silent uid).uids
  rw [map_cons, ← singleton_append, fillUids_append, none_later]
  rfl

theorem Deals.filledOn (deals : Deals marks own nowNs px q) (uid : Nat) (side : Side) :
    filledOn side (marks.map fun m => (uid, m)) = if own = side then q else 0 := by
  obtain ⟨rest, rfl, quiet⟩ := deals
  have none_later := (quiet.silent uid).filledOn side
  rw [map_cons, ← singleton_append, filledOn_append, none_later]
  simp [Paper.filledOn, Mark.sizeOn]

theorem Deals.single : Deals [.filled own nowNs px q] own nowNs px q := ⟨[], rfl, Quiet.nil⟩

theorem Deals.last (how : Ending) : Deals [.filled own nowNs px q, .ended how] own nowNs px q :=
  ⟨[.ended how], rfl, Quiet.single rfl⟩

end Deals

namespace Matcher

theorem expireVisit_visited (sym : SymbolId) (nowNs : Nat) (done : List Pending) (o : Pending) (rest : List Pending)
    (t : Tape) : ∃ marks, Quiet marks ∧
      Visited o t (expireVisit sym nowNs done o rest t).1 (expireVisit sym nowNs done o rest t).2 marks := by
  unfold expireVisit
  split
  · rename_i due
    exact ⟨_, Quiet.single rfl, Visited.ends t fun state carries => lapsed_of_expired carries due.2⟩
  · exact ⟨[], Quiet.nil, Visited.still o t⟩

theorem gapVisit_visited (done : List Pending) (o : Pending) (rest : List Pending) (t : Tape) :
    ∃ marks, Quiet marks ∧ Visited o t (gapVisit done o rest t).1 (gapVisit done o rest t).2 marks := by
  unfold gapVisit
  split
  · exact ⟨_, Quiet.single rfl, Visited.ends t fun _ _ => trivial⟩
  · exact ⟨[], Quiet.nil, Visited.still o t⟩

def Judged (o : Pending) (nowNs : Nat) (before after : Budget) (marks : List Mark) : Prop :=
  (Quiet marks ∧ after = before) ∨ ∃ px q, Deals marks o.ident.side nowNs px q ∧
    after = before.take o.ident.side q ∧ q ≤ before.against o.ident.side

theorem fillVisit_visited (sym : SymbolId) (nowNs : Nat) (touch : Touch) (done : List Pending) (o : Pending)
    (rest : List Pending) (s : Budget × Tape) (alive : o.ident.sym = sym → expiredAt nowNs o.expiryNs = false) :
    ∃ marks, Visited o s.2 (fillVisit sym nowNs touch done o rest s).1 (fillVisit sym nowNs touch done o rest s).2.2 marks ∧
      Judged o nowNs s.1 (fillVisit sym nowNs touch done o rest s).2.1 marks := by
  unfold fillVisit
  split
  · exact ⟨[], Visited.still o s.2, .inl ⟨Quiet.nil, rfl⟩⟩
  rename_i turn
  simp only [not_or, not_not, not_lt] at turn
  obtain ⟨mine, active⟩ := turn
  have living := alive mine
  split
  · rcases judge_cases (noWorse o.ident.side (opposite touch o.ident.side) o.px1e6) (opposite touch o.ident.side)
      .cancel o.ident.side o.remaining1e6 s.1 with none_left | ⟨q, fill, price, size, room, shown⟩
    · rw [judgeIoc, none_left]
      exact ⟨_, Visited.ends s.2 fun _ _ => trivial, .inl ⟨Quiet.single rfl, rfl⟩⟩
    · rw [judgeIoc, fill]
      exact ⟨_, Visited.completes s.2 ⟨active, living, price, size, room⟩, .inr ⟨_, q, Deals.last _, rfl, shown⟩⟩
  · rcases judge_cases (crossed o.ident.side (opposite touch o.ident.side) o.px1e6) o.px1e6
      .wait o.ident.side o.remaining1e6 s.1 with none_left | ⟨q, fill, price, size, room, shown⟩
    · rw [judgeMaker, none_left]
      exact ⟨[], Visited.still o s.2, .inl ⟨Quiet.nil, rfl⟩⟩
    have own : noWorse o.ident.side o.px1e6 o.px1e6 = true := by
      cases o.ident.side <;> simp [noWorse]
    rw [judgeMaker, fill]
    dsimp only
    split
    · rename_i more
      exact ⟨_, Visited.fills s.2 ⟨active, living, own, size, room⟩ more, .inr ⟨_, q, Deals.single, rfl, shown⟩⟩
    · exact ⟨_, Visited.completes s.2 ⟨active, living, own, size, room⟩, .inr ⟨_, q, Deals.last _, rfl, shown⟩⟩

theorem headVisit_visited (nowNs : Nat) (done : List Pending) (o : Pending) (rest : List Pending) (s : AmmBook × Tape) :
    ∃ marks, Visited o s.2 (headVisit nowNs done o rest s).1 (headVisit nowNs done o rest s).2.2 marks ∧
      (Quiet marks ∨ ∃ px q, Deals marks o.ident.side nowNs px q) := by
  unfold headVisit
  split
  · exact ⟨[], Visited.still o s.2, .inl Quiet.nil⟩
  split
  · rename_i due
    exact ⟨_, Visited.ends s.2 fun state carries => lapsed_of_expired carries due, .inl (Quiet.single rfl)⟩
  rename_i living
  split
  · exact ⟨[], Visited.still o s.2, .inl Quiet.nil⟩
  rename_i active
  split
  · exact ⟨_, Visited.ends s.2 fun _ _ => trivial, .inl (Quiet.single rfl)⟩
  rename_i i _
  rcases s.1.judge_cases i o.ident.side o.px1e6 o.remaining1e6 with none_left | ⟨px, q, fill, size, room, price⟩
  · generalize s.1.judge i o.ident.side o.px1e6 o.remaining1e6 = judged at none_left
    obtain ⟨b, v⟩ := judged
    obtain rfl : v = .cancel := none_left
    exact ⟨_, Visited.ends s.2 fun _ _ => trivial, .inl (Quiet.single rfl)⟩
  · generalize s.1.judge i o.ident.side o.px1e6 o.remaining1e6 = judged at fill
    obtain ⟨b, v⟩ := judged
    obtain rfl : v = .fill px q := fill
    exact ⟨_, Visited.completes s.2 ⟨not_lt.mp active, by simpa using living, price, size, room⟩,
      .inr ⟨px, q, Deals.last _⟩⟩

end Matcher

end TradingEngine.Paper
