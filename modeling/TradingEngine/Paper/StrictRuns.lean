import TradingEngine.Paper.Strict

/-!
# Runs of the matcher

Every call keeps the open table and the histories in agreement, serves the table in its order and never shows more
than a tick displays.
-/

namespace TradingEngine.Paper
open Base CoreTypes Queue Amm List Option

/-- What a pass over a table leaves and tells; a quiet pass fills nothing. -/
structure Passed (loud : Prop) (table : List Pending) (before : Tape) (left : List Pending) (after : Tape) : Prop where
  told : ∃ new, after.log = before.log ++ new ∧ (fillUids new).Sublist (table.map Pending.uid) ∧ (¬ loud → Silent new)
  order : (left.map Pending.uid).Sublist (table.map Pending.uid)
  kept : ∀ accepted, Kept accepted table before.log → Kept accepted left after.log

theorem Passed.refl (table : List Pending) (t : Tape) : Passed False table t table t where
  told := ⟨[], (append_nil _).symm, nil_sublist _, fun _ _ member => absurd member not_mem_nil⟩
  order := List.Sublist.refl _
  kept := fun _ kept => kept

theorem Passed.trans {loud : Prop} {table middle left : List Pending} {before between after : Tape}
    (first : Passed False table before middle between) (second : Passed loud middle between left after) :
    Passed loud table before left after := by
  obtain ⟨early, log, _, silent⟩ := first.told
  obtain ⟨late, log', turns, silent'⟩ := second.told
  have quiet := silent not_false
  refine ⟨⟨early ++ late, ?_, ?_, fun calm => quiet.append (silent' calm)⟩, second.order.trans first.order, ?_⟩
  · rw [log', log, append_assoc]
  · rw [fillUids_append, quiet.uids]
    exact turns.trans first.order
  · intro accepted kept
    exact second.kept accepted (first.kept accepted kept)

section Visit

variable {σ : Type} {f : List Pending → Pending → List Pending → σ → Option Pending × σ} (tapeOf : σ → Tape)
  (ok : Pending → Prop) {loud : Prop}

theorem visit_from (each : ∀ done o rest s, ok o → ∃ marks,
      Visited o (tapeOf s) (f done o rest s).1 (tapeOf (f done o rest s).2) marks ∧
      (Quiet marks ∨ loud ∧ ∃ side nowNs px q, Deals marks side nowNs px q))
    (done rest : List Pending) (s : σ) (all : ∀ o ∈ rest, ok o) :
    (∃ new, (tapeOf (visit f done rest s).2).log = (tapeOf s).log ++ new ∧
      (fillUids new).Sublist (rest.map Pending.uid) ∧ (¬ loud → Silent new)) ∧
    ((visit f done rest s).1.map Pending.uid).Sublist ((done ++ rest).map Pending.uid) ∧
    ∀ accepted, Kept accepted (done ++ rest) (tapeOf s).log →
      Kept accepted (visit f done rest s).1 (tapeOf (visit f done rest s).2).log := by
  induction rest generalizing done s with
  | nil =>
    obtain ⟨told, order, kept⟩ := Passed.refl done (tapeOf s)
    rw [append_nil, visit]
    refine ⟨⟨[], (append_nil _).symm, List.Sublist.refl _, fun _ _ member => ?_⟩, order, kept⟩
    exact absurd member not_mem_nil
  | cons o rest ih =>
    obtain ⟨marks, visited, shape⟩ := each done o rest s (all o mem_cons_self)
    obtain ⟨⟨new, log, turns, silent⟩, order, kept⟩ := ih (done ++ (f done o rest s).1.toList) (f done o rest s).2
      fun p member => all p (mem_cons_of_mem o member)
    refine ⟨⟨(marks.map fun m => (o.uid, m)) ++ new, ?_, ?_, fun calm => ?_⟩, order.trans ?_, fun accepted before => ?_⟩
    · rw [visit, log, visited.log, append_assoc]
    · rw [fillUids_append, map_cons]
      rcases shape with quiet | ⟨_, side, nowNs, px, q, deals⟩
      · rw [(quiet.silent o.uid).uids]
        exact turns.cons _
      · rw [deals.uids]
        exact turns.cons_cons _
    · rcases shape with quiet | ⟨noise, _⟩
      · exact (quiet.silent o.uid).append (silent calm)
      · exact absurd noise calm
    · simp only [map_append, map_cons, append_assoc]
      refine List.Sublist.append_left ?_ _
      cases left : (f done o rest s).1 with
      | none => exact sublist_cons_self _ _
      | some q => rw [← visited.same q left]; exact List.Sublist.refl _
    · exact kept accepted (visited.kept before)

theorem visit_passed (each : ∀ done o rest s, ok o → ∃ marks,
      Visited o (tapeOf s) (f done o rest s).1 (tapeOf (f done o rest s).2) marks ∧
      (Quiet marks ∨ loud ∧ ∃ side nowNs px q, Deals marks side nowNs px q))
    (table : List Pending) (s : σ) (all : ∀ o ∈ table, ok o) :
    Passed loud table (tapeOf s) (visit f [] table s).1 (tapeOf (visit f [] table s).2) := by
  obtain ⟨told, order, kept⟩ := visit_from tapeOf ok each [] table s all
  exact ⟨told, order, kept⟩

end Visit

namespace Matcher

def Served (loud : Prop) (m after : Matcher) : Prop :=
  Passed loud m.open_ m.tape after.open_ after.tape ∧ after.accepted = m.accepted

theorem Served.same {m after : Matcher} (table : after.open_ = m.open_) (log : after.tape.log = m.tape.log)
    (count : after.accepted = m.accepted) : Served False m after := by
  obtain ⟨⟨new, empty, turns, silent⟩, order, kept⟩ := Passed.refl m.open_ m.tape
  refine ⟨⟨⟨new, by rw [log, ← empty], turns, silent⟩, by rw [table], fun accepted before => ?_⟩, count⟩
  rw [table, log]
  exact before

theorem Served.trans {loud : Prop} {m middle after : Matcher} (first : Served False m middle)
    (second : Served loud middle after) : Served loud m after := ⟨first.1.trans second.1, second.2.trans first.2⟩

theorem Served.louder {loud : Prop} {m after : Matcher} (served : Served False m after) : Served loud m after := by
  obtain ⟨⟨⟨new, log, turns, silent⟩, order, kept⟩, count⟩ := served
  exact ⟨⟨⟨new, log, turns, fun _ => silent not_false⟩, order, kept⟩, count⟩

theorem foldl_log {α : Type} {f : Tape → α → Tape} (each : ∀ t a, (f t a).log = t.log) (xs : List α) (t : Tape) :
    (xs.foldl f t).log = t.log := by
  induction xs generalizing t with
  | nil => rfl
  | cons a rest ih => rw [foldl_cons, ih, each]

variable (m : Matcher)

theorem dueHeld_served (stampNs nowNs : Nat) : Served False m (m.dueHeld stampNs nowNs) := by
  unfold dueHeld
  split
  · unfold judgeHeld
    dsimp only
    split
    · exact Served.same rfl rfl rfl
    refine Served.same rfl (foldl_log (fun t j => ?_) _ _) rfl
    split
    · exact pushFillOf_log ..
    · rfl
  · exact Served.same rfl rfl rfl

theorem drainQueue_served (q : QueueBook) : Served False m { m with queue := q }.drainQueue := by
  refine Served.same rfl (foldl_log (fun t e => ?_) _ _) rfl
  split
  · exact pushFillOf_log ..
  · rfl

variable (nowNs : Nat) (t : Tick) (sym : SymbolId) (r : CancelReq) (touch : Touch)

theorem queueTick_served (nowNs : Nat) : Served False m (m.queueTick t nowNs) := by
  unfold queueTick
  split
  · exact drainQueue_served m _
  · exact Served.same rfl rfl rfl

theorem expire_served (nowNs : Nat) : Served False m (m.expire sym nowNs) := by
  refine ⟨visit_passed id (fun _ => True) (fun done o rest t _ => ?_) m.open_ m.tape fun _ _ => trivial, rfl⟩
  obtain ⟨marks, quiet, visited⟩ := expireVisit_visited sym nowNs done o rest t
  exact ⟨marks, visited, .inl quiet⟩

def Young (sym : SymbolId) (nowNs : Nat) (table : List Pending) : Prop :=
  ∀ o ∈ table, o.ident.sym = sym → expiredAt nowNs o.expiryNs = false

theorem expireVisit_young (nowNs : Nat) (done : List Pending) (o : Pending) (rest : List Pending)
    (t : Tape) (young : Young sym nowNs done) :
    Young sym nowNs (done ++ (expireVisit sym nowNs done o rest t).1.toList) := by
  intro p member mine
  rcases mem_append.mp member with early | here
  · exact young p early mine
  have left := mem_toList.mp here
  unfold expireVisit at left
  split at left
  · cases left
  · rename_i alive
    obtain rfl := some.inj left
    simpa [mine] using alive

theorem expire_young (nowNs : Nat) : Young sym nowNs (m.expire sym nowNs).open_ :=
  visit_rule (P := fun done _ _ => Young sym nowNs done) (expireVisit_young sym nowNs)
    nofun

theorem cross_served (nowNs : Nat) (alive : Young sym nowNs m.open_) : Served True m (m.cross sym touch nowNs) := by
  refine ⟨visit_passed Prod.snd _ (fun done o rest s living => ?_) m.open_ (Budget.of touch, m.tape) alive, rfl⟩
  obtain ⟨marks, visited, judged⟩ := fillVisit_visited sym nowNs touch done o rest s living
  rcases judged with ⟨quiet, _⟩ | ⟨px, q, deals, _⟩
  · exact ⟨marks, visited, .inl quiet⟩
  · exact ⟨marks, visited, .inr ⟨trivial, _, _, px, q, deals⟩⟩

theorem take_against (b : Budget) (own side : Side) (q : Int) :
    (b.take own q).against side = b.against side - if own = side then q else 0 := by
  cases own <;> cases side <;> simp [Budget.take, Budget.against]

/-- The sizes filled for a side and what is left for it make up a total. -/
structure Balanced (side : Side) (total : Int) (s : Budget × Tape) : Prop where
  total : filledOn side s.2.log + s.1.against side = total
  left : 0 ≤ s.1.against side

theorem fillVisit_balanced {sym : SymbolId} {nowNs : Nat} {touch : Touch} {done : List Pending} {o : Pending}
    {rest : List Pending} {s : Budget × Tape} {side : Side} {total : Int}
    (alive : o.ident.sym = sym → expiredAt nowNs o.expiryNs = false) (balanced : Balanced side total s) :
    Balanced side total (fillVisit sym nowNs touch done o rest s).2 := by
  obtain ⟨sum, left⟩ := balanced
  obtain ⟨marks, visited, judged⟩ := fillVisit_visited sym nowNs touch done o rest s alive
  rcases judged with ⟨quiet, same⟩ | ⟨px, q, deals, taken, room⟩
  · refine ⟨?_, by rwa [same]⟩
    rw [visited.log, filledOn_append, (quiet.silent o.uid).filledOn, same]
    omega
  have rest_of : (fillVisit sym nowNs touch done o rest s).2.1.against side =
      s.1.against side - if o.ident.side = side then q else 0 := by rw [taken, take_against]
  refine ⟨?_, ?_⟩
  · rw [visited.log, filledOn_append, deals.filledOn, rest_of]
    omega
  rw [rest_of]
  split
  · rename_i mine
    rw [mine] at room
    omega
  · omega

theorem cross_budget (nowNs : Nat) (alive : Young sym nowNs m.open_)
    (side : Side) (shown : 0 ≤ (Budget.of touch).against side) :
    filledOn side (m.cross sym touch nowNs).tape.log ≤ filledOn side m.tape.log + (Budget.of touch).against side := by
  have start : Balanced side (filledOn side m.tape.log + (Budget.of touch).against side) (Budget.of touch, m.tape) :=
    ⟨rfl, shown⟩
  have pass : Young sym nowNs [] ∧ Balanced side (filledOn side m.tape.log + (Budget.of touch).against side)
      (visit (fillVisit sym nowNs touch) [] m.open_ (Budget.of touch, m.tape)).2 :=
    visit_rule (P := fun _ rest s => Young sym nowNs rest ∧
        Balanced side (filledOn side m.tape.log + (Budget.of touch).against side) s)
      (fun done o rest s ⟨living, balanced⟩ => ⟨fun p member => living p (mem_cons_of_mem o member),
        fillVisit_balanced (living o mem_cons_self) balanced⟩) ⟨alive, start⟩
  obtain ⟨-, total, left⟩ := pass
  rw [show (m.cross sym touch nowNs).tape =
    (visit (fillVisit sym nowNs touch) [] m.open_ (Budget.of touch, m.tape)).2.2 from rfl]
  omega

theorem touch_shown (side : Side) : 0 ≤ (Budget.of t.touch).against side := by
  cases side <;> simp only [Budget.of, Budget.against, Tick.touch, Touch.of] <;> split <;> omega

def swept (t : Tick) (nowNs : Nat) : Matcher :=
  let m := m.dueHeld t.tsNs nowNs
  let m := { m with held := m.held.onQuote t }
  let m := m.queueTick t nowNs
  m.expire t.sym nowNs

theorem observeTick_eq (nowNs : Nat) : m.observeTick t nowNs =
    if isFillEvidence t then (m.swept t nowNs).cross t.sym t.touch nowNs else m.swept t nowNs := rfl

theorem swept_served (nowNs : Nat) : Served False m (m.swept t nowNs) := by
  have held := m.dueHeld_served t.tsNs nowNs
  have quoted : Served False m { m.dueHeld t.tsNs nowNs with held := (m.dueHeld t.tsNs nowNs).held.onQuote t } :=
    held.trans (Served.same rfl rfl rfl)
  have queued := quoted.trans (queueTick_served _ t nowNs)
  exact queued.trans (expire_served _ t.sym nowNs)

theorem swept_young (nowNs : Nat) : Young t.sym nowNs (m.swept t nowNs).open_ := expire_young _ t.sym nowNs

theorem observeTick_served (nowNs : Nat) : Served True m (m.observeTick t nowNs) := by
  rw [observeTick_eq]
  split
  · exact (m.swept_served t nowNs).trans (cross_served _ t.sym t.touch nowNs (m.swept_young t nowNs))
  · exact (m.swept_served t nowNs).louder

theorem observeTick_budget (nowNs : Nat) (side : Side) :
    filledOn side (m.observeTick t nowNs).tape.log ≤ filledOn side m.tape.log + (Budget.of t.touch).against side := by
  obtain ⟨new, log, _, silent⟩ := (m.swept_served t nowNs).1.told
  have before : filledOn side (m.swept t nowNs).tape.log = filledOn side m.tape.log := by
    rw [log, filledOn_append, (silent not_false).filledOn, Int.add_zero]
  have shown := touch_shown t side
  rw [observeTick_eq]
  split
  · rw [← before]
    exact cross_budget _ t.sym t.touch nowNs (m.swept_young t nowNs) side shown
  · omega

theorem judgeAmmOrders_served : Served True m (m.judgeAmmOrders nowNs) := by
  refine ⟨visit_passed Prod.snd (fun _ => True) (fun done o rest s _ => ?_) m.open_ (m.amm, m.tape) fun _ _ => trivial, rfl⟩
  obtain ⟨marks, visited, shape⟩ := headVisit_visited nowNs done o rest s
  rcases shape with quiet | ⟨px, q, deals⟩
  · exact ⟨marks, visited, .inl quiet⟩
  · exact ⟨marks, visited, .inr ⟨trivial, _, _, px, q, deals⟩⟩

theorem cancelSwaps_served : Served False m m.cancelSwaps := by
  refine ⟨visit_passed id (fun _ => True) (fun done o rest t _ => ?_) m.open_ m.tape fun _ _ => trivial, rfl⟩
  obtain ⟨marks, quiet, visited⟩ := gapVisit_visited done o rest t
  exact ⟨marks, visited, .inl quiet⟩

theorem observeAmm_served (payload : Payload) (nowNs : Nat) : Served True m (m.observeAmm sym payload nowNs) := by
  have known : ∀ amm, Served False m { m with amm } := fun _ => Served.same rfl rfl rfl
  unfold observeAmm
  split
  · exact (known _).trans (judgeAmmOrders_served _ nowNs)
  · exact ((known _).trans (cancelSwaps_served _)).louder
  · exact (known _).louder

theorem split_at {table : List Pending} {i : Nat} {p : Pending} (found : table[i]? = some p) :
    ∃ pre post, table = pre ++ p :: post ∧ table.eraseIdx i = pre ++ post ∧ ∀ q, table.set i q = pre ++ q :: post := by
  obtain ⟨inside, rfl⟩ := List.getElem?_eq_some_iff.mp found
  refine ⟨table.take i, table.drop (i + 1), ?_, ?_, fun q => ?_⟩
  · rw [cons_getElem_drop_succ, take_append_drop]
  · exact eraseIdx_eq_take_drop_succ table i
  · exact set_eq_take_append_cons_drop.trans (if_pos inside)

theorem Served.entry {m : Matcher} {pre post : List Pending} {p : Pending} {left : Option Pending} {after : Tape}
    {marks : List Mark} (table : m.open_ = pre ++ p :: post) (visited : Visited p m.tape left after marks)
    (quiet : Quiet marks) : Served False m { m with open_ := pre ++ left.toList ++ post, tape := after } := by
  refine ⟨⟨⟨_, visited.log, ?_, fun _ => quiet.silent p.uid⟩, ?_, fun accepted kept => ?_⟩, rfl⟩
  · rw [(quiet.silent p.uid).uids]
    exact nil_sublist _
  · simp only [table, map_append, map_cons, append_assoc]
    refine List.Sublist.append_left ?_ _
    cases gone : left with
    | none => exact sublist_cons_self _ _
    | some q => rw [← visited.same q gone]; exact List.Sublist.refl _
  · rw [table] at kept
    exact visited.kept kept

theorem cancelQueue_queue : ∃ queue, (m.cancelQueue r).1 = { m with queue } := by
  unfold cancelQueue
  repeat' split
  all_goals exact ⟨_, rfl⟩

theorem modifyQueue_queue (r : ModifyReq) (nowNs : Nat) : ∃ queue, (m.modifyQueue r nowNs).1 = { m with queue } := by
  unfold modifyQueue
  dsimp only
  repeat' split
  all_goals exact ⟨_, rfl⟩

theorem cancel_served : Served False m (m.cancel r).1 := by
  unfold cancel
  split
  · obtain ⟨queue, same⟩ := m.cancelQueue_queue r
    rw [same]
    exact Served.same rfl rfl rfl
  · exact Served.same rfl rfl rfl
  split
  · exact Served.same rfl rfl rfl
  rename_i p found
  split
  · exact Served.same rfl rfl rfl
  obtain ⟨pre, post, table, erased, _⟩ := split_at found
  have ends : Visited p m.tape none (m.tape.note p.uid [.ended .canceled]) [.ended .canceled] :=
    Visited.ends m.tape fun _ _ => trivial
  have served := Served.entry table ends (Quiet.single rfl)
  simp only [toList_none, append_nil, ← erased] at served
  exact served

theorem Visited.modifies (p : Pending) (t : Tape) (px1e6 qty1e6 : Int) (clientOid tActiveNs : Nat) (size : 0 < qty1e6) :
    Visited p t (some (p.modified px1e6 qty1e6 clientOid tActiveNs))
      (t.note p.uid [.modified px1e6 qty1e6 tActiveNs]) [.modified px1e6 qty1e6 tActiveNs] := by
  refine ⟨rfl, fun q is => by rw [← some.inj is]; rfl, fun history state story carries _ => ?_⟩
  refine ⟨_, story.modified size, ⟨carries.side, rfl, ?_, rfl, carries.expiry⟩, size⟩
  show qty1e6 = qty1e6 - 0
  rw [Int.sub_zero]

theorem modify_served (r : ModifyReq) (nowNs : Nat) : Served False m (m.modify r nowNs).1 := by
  unfold modify
  split
  · obtain ⟨queue, same⟩ := m.modifyQueue_queue r nowNs
    rw [same]
    exact Served.same rfl rfl rfl
  · exact Served.same rfl rfl rfl
  split
  · exact Served.same rfl rfl rfl
  rename_i p found
  split
  · exact Served.same rfl rfl rfl
  split
  · exact Served.same rfl rfl rfl
  rename_i sized
  simp only [not_or, not_le] at sized
  obtain ⟨pre, post, table, _, replaced⟩ := split_at found
  have served := Served.entry table
    (Visited.modifies p m.tape r.order.px r.order.qty r.order.clientOid (addNs nowNs (activation p.modelVenue)) sized.2)
    (Quiet.single rfl)
  rw [toList_some, append_assoc, singleton_append, ← replaced] at served
  exact served

theorem accept_kept {m : Matcher} {o : Order} (size : 0 < o.qty) (kept : Kept m.accepted m.open_ m.tape.log) :
    Kept (m.accept o nowNs).accepted (m.accept o nowNs).open_ (m.accept o nowNs).tape.log := by
  have unknown : ∀ p ∈ m.open_, p.uid ≠ m.accepted := fun p member => (kept.known p member).ne
  unfold accept
  dsimp only [note_log]
  refine ⟨?_, fun p member => ?_, fun uid old => ?_, fun uid new => ?_⟩
  · rw [map_append, pairwise_append]
    refine ⟨kept.ordered, pairwise_singleton _ _, fun a early b late => ?_⟩
    obtain ⟨p, listed, rfl⟩ := mem_map.mp early
    rw [mem_singleton.mp late]
    exact kept.known p listed
  · rcases mem_append.mp member with early | late
    · have := kept.known p early
      omega
    · rw [mem_singleton.mp late]
      exact Nat.lt_succ_self _
  · rw [marksOf_append]
    by_cases own : uid = m.accepted
    · subst own
      rw [kept.fresh _ le_rfl, marksOf_own, entryOf_append_of_absent unknown]
      refine ⟨_, Story.placed size, ?_⟩
      rw [entryOf, find?_cons_of_pos (by simp)]
      exact ⟨⟨rfl, rfl, (Int.sub_zero _).symm, rfl, rfl⟩, size⟩
    · obtain ⟨left, story, agrees⟩ := kept.lives uid (by omega)
      rw [marksOf_other (Ne.symm own), append_nil]
      refine ⟨left, story, ?_⟩
      have same : entryOf uid (m.open_ ++ [⟨m.seq, addNs nowNs (activation (symbolVenueByte o.sym)), expiryAt o.tsNs o.ttlNs,
          o.px, o.qty, o.clientOid, OrderIdentity.of o, symbolVenueByte o.sym, m.accepted⟩]) = entryOf uid m.open_ := by
        rw [entryOf, find?_append, find?_cons_of_neg (by simpa using Ne.symm own), find?_nil, or_none]
        rfl
      rw [same]
      exact agrees
  · rw [marksOf_append, kept.fresh uid (by omega), marksOf_other (by omega)]
    rfl

theorem submit_cases (o : Order) (nowNs : Nat) :
    Served False m (m.submit o nowNs) ∨ (0 < o.qty ∧ m.submit o nowNs = m.accept o nowNs) := by
  unfold submit
  split
  · left
    unfold submitHeld
    split
    · dsimp only
      split <;> exact Served.same rfl rfl rfl
    · exact Served.same rfl rfl rfl
  · split
    · exact .inl (Served.same rfl rfl rfl)
    rename_i routable
    split
    · exact .inl (Served.same rfl rfl rfl)
    split
    · exact .inl (Served.same rfl rfl rfl)
    · refine .inr ⟨?_, rfl⟩
      simp only [unroutable, decide_eq_true_eq, not_or] at routable
      omega

theorem cancel_error {e : DispatchError} (refused : (m.cancel r).2 = .error e) : (m.cancel r).1.open_ = m.open_ := by
  unfold cancel at *
  split at refused
  · obtain ⟨queue, same⟩ := m.cancelQueue_queue r
    rw [same]
  · rfl
  · split at refused
    · rfl
    split at refused
    · rename_i mismatch
      rw [if_pos mismatch]
    · cases refused

theorem modify_error (r : ModifyReq) (nowNs : Nat) {e : DispatchError}
    (refused : (m.modify r nowNs).2 = .error e) : (m.modify r nowNs).1.open_ = m.open_ := by
  unfold modify at *
  split at refused
  · obtain ⟨queue, same⟩ := m.modifyQueue_queue r nowNs
    rw [same]
  · rfl
  · split at refused
    · rfl
    split at refused
    · rename_i mismatch
      rw [if_pos mismatch]
    split at refused
    · rename_i same unsized
      rw [if_neg same, if_pos unsized]
    · cases refused

end Matcher

inductive MatcherOp where
  | submit (o : Order) (nowNs : Nat)
  | cancel (r : CancelReq)
  | modify (r : ModifyReq) (nowNs : Nat)
  | observeTick (t : Tick) (nowNs : Nat)
  | observeAmm (sym : SymbolId) (payload : Payload) (nowNs : Nat)
  | observeDepth (d : DepthTopK) (nowNs : Nat)
  | observeTrade (sym : SymbolId) (px1e6 qty1e6 : Int) (sell : Bool) (nowNs : Nat)
  | trackQueueSym (sym : SymbolId)
  | tryNextFill
  | setPm5HeldDelayNs (ns : Nat)

namespace Matcher

variable (m : Matcher)

def step : MatcherOp → Matcher
  | .submit o nowNs => m.submit o nowNs
  | .cancel r => (m.cancel r).1
  | .modify r nowNs => (m.modify r nowNs).1
  | .observeTick t nowNs => m.observeTick t nowNs
  | .observeAmm sym payload nowNs => m.observeAmm sym payload nowNs
  | .observeDepth d nowNs => m.observeDepth d nowNs
  | .observeTrade sym px1e6 qty1e6 sell nowNs => m.observeTrade sym px1e6 qty1e6 sell nowNs
  | .trackQueueSym sym => m.trackQueueSym sym
  | .tryNextFill => m.tryNextFill.2
  | .setPm5HeldDelayNs ns => { m with pm5HeldDelayNs := ns }

variable (op : MatcherOp)

theorem step_served : Served True m (m.step op) ∨
    ∃ o nowNs, 0 < o.qty ∧ op = .submit o nowNs ∧ m.step op = m.accept o nowNs := by
  cases op with
  | submit o nowNs =>
    rcases m.submit_cases o nowNs with served | ⟨size, accepted⟩
    · exact .inl served.louder
    · exact .inr ⟨o, nowNs, size, rfl, accepted⟩
  | cancel r => exact .inl (m.cancel_served r).louder
  | modify r nowNs => exact .inl (m.modify_served r nowNs).louder
  | observeTick t nowNs => exact .inl (m.observeTick_served t nowNs)
  | observeAmm sym payload nowNs => exact .inl (m.observeAmm_served sym payload nowNs)
  | observeDepth d nowNs =>
    exact .inl ((m.dueHeld_served d.tsNs nowNs).trans (Served.same rfl rfl rfl)).louder
  | observeTrade sym px1e6 qty1e6 sell nowNs =>
    refine .inl (Served.louder ?_)
    show Served False m (m.observeTrade sym px1e6 qty1e6 sell nowNs)
    unfold observeTrade
    split
    · exact drainQueue_served m _
    · exact Served.same rfl rfl rfl
  | trackQueueSym sym => exact .inl (Served.same rfl rfl rfl).louder
  | tryNextFill =>
    refine .inl (Served.louder ?_)
    show Served False m m.tryNextFill.2
    unfold tryNextFill
    split <;> exact Served.same rfl rfl rfl
  | setPm5HeldDelayNs ns => exact .inl (Served.same rfl rfl rfl).louder

theorem step_kept (kept : Kept m.accepted m.open_ m.tape.log) :
    Kept (m.step op).accepted (m.step op).open_ (m.step op).tape.log := by
  rcases m.step_served op with ⟨passed, count⟩ | ⟨o, nowNs, size, _, accepted⟩
  · rw [count]
    exact passed.kept m.accepted kept
  · rw [accepted]
    exact accept_kept nowNs size kept

theorem new_kept : Kept new.accepted new.open_ new.tape.log := ⟨List.Pairwise.nil, nofun, nofun, fun _ _ => rfl⟩

/-- After any calls every order accepted has a history that the law allows, and is in the table exactly while it has
not ended; and one more call serves the table in its order, keeps that order, fills for a side at most what a tick
displays, and changes nothing in the table when it answers an error. -/
theorem strict_orders_keep_the_law (ops : List MatcherOp) (op : MatcherOp) :
    Kept (run step new ops).accepted (run step new ops).open_ (run step new ops).tape.log ∧
    (∃ told, ((run step new ops).step op).tape.log = (run step new ops).tape.log ++ told ∧
      (fillUids told).Sublist ((run step new ops).open_.map Pending.uid) ∧
      ∀ t nowNs side, op = .observeTick t nowNs → filledOn side told ≤ (Budget.of t.touch).against side) ∧
    ((((run step new ops).step op).open_.map Pending.uid).Sublist ((run step new ops).open_.map Pending.uid) ∨
      ∃ o nowNs, op = .submit o nowNs ∧ ((run step new ops).step op).open_.map Pending.uid =
        (run step new ops).open_.map Pending.uid ++ [(run step new ops).accepted]) ∧
    (∀ r e, ((run step new ops).cancel r).2 = .error e → ((run step new ops).cancel r).1.open_ = (run step new ops).open_) ∧
    ∀ r nowNs e, ((run step new ops).modify r nowNs).2 = .error e →
      ((run step new ops).modify r nowNs).1.open_ = (run step new ops).open_ := by
  have kept : Kept (run step new ops).accepted (run step new ops).open_ (run step new ops).tape.log :=
    run_invariant (P := fun m : Matcher => Kept m.accepted m.open_ m.tape.log) new_kept step_kept ops
  generalize run step new ops = m at kept ⊢
  refine ⟨kept, ?_, ?_, fun r e => m.cancel_error r, fun r nowNs e => m.modify_error r nowNs⟩
  · rcases m.step_served op with ⟨passed, _⟩ | ⟨o, nowNs, _, rfl, accepted⟩
    · obtain ⟨told, log, turns, _⟩ := passed.told
      refine ⟨told, log, turns, ?_⟩
      rintro t nowNs side rfl
      have budget := m.observeTick_budget t nowNs side
      rw [show (m.observeTick t nowNs).tape.log = m.tape.log ++ told from log, filledOn_append] at budget
      omega
    · refine ⟨_, by rw [accepted]; rfl, ?_, nofun⟩
      exact nil_sublist _
  · rcases m.step_served op with ⟨passed, _⟩ | ⟨o, nowNs, _, rfl, accepted⟩
    · exact .inl passed.order
    · refine .inr ⟨o, nowNs, rfl, ?_⟩
      rw [accepted]
      simp [accept]

end Matcher

end TradingEngine.Paper
