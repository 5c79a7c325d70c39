import TradingEngine.Backtest.Engine

/-!
# Cash conservation of a backtest

The books and the marks change in three ways only: a mark, a fill at the mark, a settlement at the mark.
-/

namespace TradingEngine.Backtest

open Base CoreTypes Queue Paper Amm Function List

def total (f : SymbolId → Int) : Int := ∑ s, f s

theorem total_change {f g : SymbolId → Int} (sym : SymbolId) (same : ∀ s, s ≠ sym → g s = f s) :
    total g = total f + (g sym - f sym) := by
  have rest : ∑ s ∈ Finset.univ.erase sym, g s = ∑ s ∈ Finset.univ.erase sym, f s :=
    Finset.sum_congr rfl fun s member => same s (Finset.ne_of_mem_erase member)
  have first := Finset.add_sum_erase Finset.univ g (Finset.mem_univ sym)
  have second := Finset.add_sum_erase Finset.univ f (Finset.mem_univ sym)
  unfold total
  linarith

theorem total_sub (f g : SymbolId → Int) : (total fun s => f s - g s) = total f - total g := Finset.sum_sub_distrib f g

theorem total_zero : (total fun _ => 0) = 0 := Finset.sum_const_zero

/-! ### One book -/

def Move.cash : Move → Int
  | .fill .bid px q => -(px * q)
  | .fill .ask px q => px * q
  | .settled value q => value * q

namespace Book

/-- The signed cash of the fills and of what was settled. -/
def cash (b : Book) : Int := (b.moves.map Move.cash).sum

def cost (b : Book) : Int := total fun s => (b.entries s).cost1e12

def worth (b : Book) (marks : SymbolId → Option Int) : Int := total fun s => (b.entries s).qty1e6 * (marks s).getD 0

def Squared (b : Book) : Prop := b.realizedSum1e12 = b.cash + b.cost

/-- The unrealized total is the worth less the cost, and nothing is held without a mark. -/
structure Priced (b : Book) (marks : SymbolId → Option Int) : Prop where
  unreal : b.unrealSum1e12 = b.worth marks - b.cost
  marked : ∀ s, marks s = none → b.entries s = ⟨0, 0⟩

/-- Every held symbol is marked, the unrealized total is what the stored marks make of the positions, and the two
totals are the cash of the history and the worth of the positions. -/
structure Accounted (b : Book) (marks : SymbolId → Option Int) : Prop where
  held : ∀ s, (b.entries s).qty1e6 ≠ 0 → (marks s).isSome
  unreal : b.unrealSum1e12 = total fun s => (b.entries s).qty1e6 * (marks s).getD 0 - (b.entries s).cost1e12
  both : b.realizedSum1e12 + b.unrealSum1e12 =
    (b.moves.map Move.cash).sum + total fun s => (b.entries s).qty1e6 * (marks s).getD 0

variable {b : Book} {marks : SymbolId → Option Int}

theorem Priced.accounted (priced : b.Priced marks) (squared : b.Squared) : b.Accounted marks where
  held := by
    intro s held
    cases stored : marks s with
    | none => exact absurd (congrArg PosEntry.qty1e6 (priced.marked s stored)) held
    | some mark => rfl
  unreal := by
    rw [total_sub]
    exact priced.unreal
  both := by
    rw [squared, priced.unreal, Book.cash, Book.worth]
    ring

theorem new_squared : new.Squared := by
  show 0 = 0 + total fun _ => 0
  rw [total_zero, add_zero]

theorem new_priced (marks : SymbolId → Option Int) : new.Priced marks where
  unreal := by
    show 0 = (total fun s => 0 * (marks s).getD 0) - total fun _ => 0
    simp only [zero_mul, total_zero, sub_zero]
  marked := fun _ _ => rfl

theorem onMark_entries (b : Book) (sym : SymbolId) (old new : Int) : (b.onMark sym old new).entries = b.entries := by
  unfold onMark
  dsimp only
  split <;> rfl

theorem onMark_unreal (b : Book) (sym : SymbolId) (old new : Int) :
    (b.onMark sym old new).unrealSum1e12 = b.unrealSum1e12 + (b.entries sym).qty1e6 * (new - old) := by
  unfold onMark
  dsimp only
  split_ifs with held
  · rfl
  · rw [not_not.mp held, zero_mul, add_zero]

theorem onMark_squared (squared : b.Squared) (sym : SymbolId) (old new : Int) : (b.onMark sym old new).Squared := by
  unfold onMark
  dsimp only
  split <;> exact squared

theorem onMark_priced (priced : b.Priced marks) (sym : SymbolId) (new : Int) :
    (b.onMark sym ((marks sym).getD new) new).Priced (update marks sym (some new)) where
  unreal := by
    have worth : b.worth (update marks sym (some new)) = b.worth marks +
        ((b.entries sym).qty1e6 * new - (b.entries sym).qty1e6 * (marks sym).getD 0) := by
      have moved := total_change (f := fun s => (b.entries s).qty1e6 * (marks s).getD 0)
        (g := fun s => (b.entries s).qty1e6 * ((update marks sym (some new)) s).getD 0) sym
        (fun s apart => by simp only [update_of_ne apart])
      simp only [update_self, Option.getD_some] at moved
      exact moved
    rw [onMark_unreal, Book.worth, Book.cost, onMark_entries, ← Book.worth, ← Book.cost, worth, priced.unreal]
    cases stored : marks sym with
    | some old => simp only [Option.getD_some]; ring
    | none =>
      -- a symbol without a mark holds nothing, so a first mark moves neither side
      rw [priced.marked sym stored]
      simp only [Option.getD_none]
      ring
  marked := by
    intro s unmarked
    rw [onMark_entries]
    by_cases here : s = sym
    · rw [here, update_self] at unmarked
      cases unmarked
    · rw [update_of_ne here] at unmarked
      exact priced.marked s unmarked

section Entry

/-! An entry replaced at a mark, with what it realizes. -/

variable {after : Book} {sym : SymbolId} {entry : PosEntry} {realized mark : Int}

theorem replace_cost (entries : after.entries = update b.entries sym entry) :
    after.cost = b.cost + (entry.cost1e12 - (b.entries sym).cost1e12) := by
  have moved := total_change (f := fun s => (b.entries s).cost1e12) (g := fun s => (after.entries s).cost1e12) sym
    (fun s apart => by simp only [entries, update_of_ne apart])
  simp only [entries, update_self] at moved
  rw [Book.cost, entries, moved]
  rfl

theorem replace_worth (entries : after.entries = update b.entries sym entry) (marks : SymbolId → Option Int) :
    after.worth marks = b.worth marks + (entry.qty1e6 - (b.entries sym).qty1e6) * (marks sym).getD 0 := by
  have moved := total_change (f := fun s => (b.entries s).qty1e6 * (marks s).getD 0)
    (g := fun s => (after.entries s).qty1e6 * (marks s).getD 0) sym
    (fun s apart => by simp only [entries, update_of_ne apart])
  simp only [entries, update_self] at moved
  rw [Book.worth, entries, moved, sub_mul]
  rfl

theorem replace_squared (move : Move) (squared : b.Squared) (entries : after.entries = update b.entries sym entry)
    (sum : after.realizedSum1e12 = b.realizedSum1e12 + realized) (moves : after.moves = b.moves ++ [move])
    (earned : realized = move.cash + (entry.cost1e12 - (b.entries sym).cost1e12)) : after.Squared := by
  have cash : after.cash = b.cash + move.cash := by
    rw [Book.cash, moves, map_append, sum_append, map_singleton, sum_singleton]
    rfl
  unfold Squared at squared ⊢
  rw [sum, cash, replace_cost entries, squared, earned]
  ring

theorem replace_priced (priced : b.Priced marks) (stored : marks sym = some mark)
    (entries : after.entries = update b.entries sym entry)
    (sum : after.unrealSum1e12 = b.unrealSum1e12 + ((entry.qty1e6 * mark - entry.cost1e12) -
      ((b.entries sym).qty1e6 * mark - (b.entries sym).cost1e12))) : after.Priced marks where
  unreal := by
    rw [sum, replace_worth entries, replace_cost entries, priced.unreal, stored, Option.getD_some]
    ring
  marked := by
    intro s unmarked
    have apart : s ≠ sym := by
      rintro rfl
      rw [stored] at unmarked
      cases unmarked
    rw [entries, update_of_ne apart]
    exact priced.marked s unmarked

end Entry

theorem applyFill_squared (squared : b.Squared) (sym : SymbolId) (side : Side) (px q mark : Int) :
    (b.applyFill sym side px q mark).Squared := by
  obtain ⟨-, realized⟩ := Filling.run_eq px (b.entries sym).qty1e6 (b.entries sym).cost1e12 (signed side q)
  refine replace_squared (.fill side px q) squared rfl rfl rfl ?_
  rw [realized]
  cases side <;> simp only [Move.cash, signed] <;> ring

theorem applyFill_priced (priced : b.Priced marks) {sym : SymbolId} {mark : Int} (stored : marks sym = some mark)
    (side : Side) (px q : Int) : (b.applyFill sym side px q mark).Priced marks := replace_priced priced stored rfl rfl

theorem settle_squared (squared : b.Squared) (sym : SymbolId) (value mark : Int) : (b.settle sym value mark).Squared := by
  unfold settle
  dsimp only
  split
  · exact squared
  · refine replace_squared (.settled value (b.entries sym).qty1e6) squared rfl rfl rfl ?_
    simp only [Move.cash]
    ring

theorem settle_priced (priced : b.Priced marks) (sym : SymbolId) (value : Int) :
    (b.settle sym value ((marks sym).getD value)).Priced marks := by
  unfold settle
  dsimp only
  split_ifs with flat
  · exact priced
  cases stored : marks sym with
  | none => exact absurd (congrArg PosEntry.qty1e6 (priced.marked sym stored)) flat
  | some mark =>
    refine replace_priced priced stored rfl ?_
    simp only [Option.getD_some]
    ring

end Book

/-! ### The books and the marks -/

namespace Accounts

/-- The three ways the accounts change. -/
inductive Step : Accounts → Accounts → Prop
  | mark (a : Accounts) (sym : SymbolId) (new1e6 : Int) : Step a (a.mark sym new1e6)
  | fill (a : Accounts) (sym : SymbolId) (side : Side) (px1e6 qty1e6 : Int) (oos : Bool) :
      Step a (a.fill sym side px1e6 qty1e6 ((a.marks1e6 sym).getD px1e6) oos)
  | settle (a : Accounts) (sym : SymbolId) (value1e6 : Int) :
      Step a (a.settle sym value1e6 ((a.marks1e6 sym).getD value1e6))

abbrev Steps : Accounts → Accounts → Prop := Relation.ReflTransGen Step

/-- A book squares, and is priced by the marks unless a fill went before its symbol's first. -/
def Kept (b : Book) (marks : SymbolId → Option Int) (blind : Bool) : Prop :=
  b.Squared ∧ (blind = false → b.Priced marks)

structure Conserved (a : Accounts) : Prop where
  full : Kept a.full a.marks1e6 a.blind
  oos : Kept a.oos a.marks1e6 a.blind

theorem new_conserved : new.Conserved :=
  ⟨⟨Book.new_squared, fun _ => Book.new_priced _⟩, Book.new_squared, fun _ => Book.new_priced _⟩

theorem Kept.fill {b : Book} {marks : SymbolId → Option Int} {blind : Bool} (kept : Kept b marks blind) (sym : SymbolId)
    (side : Side) (px q : Int) (booked : Bool) :
    Kept (if booked then b.applyFill sym side px q ((marks sym).getD px) else b) marks (blind || (marks sym).isNone) := by
  obtain ⟨squared, priced⟩ := kept
  cases booked with
  | false => exact ⟨squared, fun seen => priced (Bool.or_eq_false_iff.mp seen).1⟩
  | true =>
    refine ⟨Book.applyFill_squared squared .., fun seen => ?_⟩
    obtain ⟨before, here⟩ := Bool.or_eq_false_iff.mp seen
    refine Book.applyFill_priced (priced before) ?_ ..
    cases marked : marks sym with
    | none => simp [marked] at here
    | some mark => rfl

theorem Step.conserved {a after : Accounts} (step : Step a after) (conserved : a.Conserved) : after.Conserved := by
  obtain ⟨full, oos⟩ := conserved
  cases step with
  | fill sym side px q booked => exact ⟨full.fill sym side px q true, oos.fill sym side px q booked⟩
  | mark sym new1e6 =>
    exact ⟨⟨Book.onMark_squared full.1 .., fun seen => Book.onMark_priced (full.2 seen) ..⟩,
      Book.onMark_squared oos.1 .., fun seen => Book.onMark_priced (oos.2 seen) ..⟩
  | settle sym value1e6 =>
    exact ⟨⟨Book.settle_squared full.1 .., fun seen => Book.settle_priced (full.2 seen) ..⟩,
      Book.settle_squared oos.1 .., fun seen => Book.settle_priced (oos.2 seen) ..⟩

theorem Steps.conserved {a after : Accounts} (steps : Steps a after) (conserved : a.Conserved) : after.Conserved := by
  induction steps with
  | refl => exact conserved
  | tail _ step ih => exact step.conserved ih

end Accounts

/-! ### The engine moves its accounts by these steps only -/

namespace FillEngine

open Accounts (Steps Step)

variable {symClass : SymbolId → Option InstrumentClass}

theorem bookFill_steps {s : Accounts × List SynthFill} (o : OpenOrder) (px q : Int) {mark : Int}
    (at_mark : (s.1.marks1e6 o.sym).getD px = mark) : Steps s.1 (bookFill symClass s o px q mark).1 := by
  subst at_mark
  unfold bookFill
  split
  · exact .refl
  · exact .single (.fill _ _ _ _ _ _)

theorem bookFill_marks (s : Accounts × List SynthFill) (o : OpenOrder) (px q mark : Int) :
    (bookFill symClass s o px q mark).1.marks1e6 = s.1.marks1e6 := by
  unfold bookFill
  split <;> rfl

theorem bookEvent_steps (s : (Accounts × List SynthFill) × (Nat × Nat → Option Bool)) (t : Told) :
    Steps s.1.1 (bookEvent symClass s t).1.1 := by
  unfold bookEvent
  dsimp only
  split
  · exact bookFill_steps _ _ _ rfl
  · exact .refl
  · exact .refl

variable (e : FillEngine)

variable (t : Paper.Tick) (virtNs : Nat) (out : List SynthFill) (wallNs : Nat)

theorem drainQueue_steps : Steps e.accounts (e.drainQueue out).1.accounts := by
  have fold : ∀ (events : List Told) (s : (Accounts × List SynthFill) × (Nat × Nat → Option Bool)),
      Steps s.1.1 (events.foldl (bookEvent e.symClass) s).1.1 := by
    intro events
    induction events with
    | nil => exact fun s => .refl
    | cons t rest ih => exact fun s => (bookEvent_steps s t).trans (ih _)
  exact fold e.queue.drain.2 ((e.accounts, out), e.queueOos)

theorem visit_steps {σ : Type} {f : List OpenOrder → OpenOrder → List OpenOrder → σ → Option OpenOrder × σ}
    (accounts : σ → Accounts) (P : σ → Prop) (table : List OpenOrder) (s : σ)
    (each : ∀ done o rest s, P s → Steps (accounts s) (accounts (f done o rest s).2) ∧ P (f done o rest s).2)
    (start : P s) : Steps (accounts s) (accounts (visit f [] table s).2) := by
  have begins : Steps (accounts s) (accounts s) ∧ P s := ⟨.refl, start⟩
  have pass : Steps (accounts s) (accounts (visit f [] table s).2) ∧ P (visit f [] table s).2 :=
    visit_rule (P := fun _ _ now => Steps (accounts s) (accounts now) ∧ P now)
      (fun done o rest now ⟨steps, keeps⟩ =>
        ⟨steps.trans (each done o rest now keeps).1, (each done o rest now keeps).2⟩) begins
  exact pass.1

theorem bookFill_at {s : Accounts × List SynthFill} {o : OpenOrder} {sym : SymbolId} {virtNs : Nat} {mark : Int}
    (active : ¬(o.sym ≠ sym ∨ virtNs < o.tActiveNs)) (kept : s.1.marks1e6 sym = some mark) (px q : Int) :
    Steps s.1 (bookFill symClass s o px q mark).1 ∧ (bookFill symClass s o px q mark).1.marks1e6 sym = some mark := by
  have here : o.sym = sym := not_not.mp (not_or.mp active).1
  refine ⟨bookFill_steps o px q ?_, ?_⟩
  · rw [here, kept, Option.getD_some]
  · rw [bookFill_marks, kept]

theorem markFill_steps {mark : Int}
    (stored : e.accounts.marks1e6 t.sym = some mark) : Steps e.accounts (e.markFill t virtNs mark out).1.accounts := by
  refine visit_steps Prod.fst (fun s => s.1.marks1e6 t.sym = some mark) e.open_ (e.accounts, out) ?_ stored
  intro done o rest s kept
  unfold markVisit
  by_cases other : o.sym ≠ t.sym ∨ virtNs < o.tActiveNs
  · rw [if_pos other]
    exact ⟨.refl, kept⟩
  · rw [if_neg other]
    exact bookFill_at other kept _ _

theorem cross_steps {mark : Int}
    (stored : e.accounts.marks1e6 t.sym = some mark) : Steps e.accounts (e.cross t virtNs mark out).1.accounts := by
  refine visit_steps (fun s : Budget × Accounts × List SynthFill => s.2.1) (fun s => s.2.1.marks1e6 t.sym = some mark)
    e.open_ (Budget.of t.touch, e.accounts, out) ?_ stored
  intro done o rest s kept
  unfold fillVisit
  by_cases other : o.sym ≠ t.sym ∨ virtNs < o.tActiveNs
  · rw [if_pos other]
    exact ⟨.refl, kept⟩
  rw [if_neg other]
  split
  all_goals
    split
    · exact bookFill_at other kept _ _
    · exact ⟨.refl, kept⟩

theorem judgeAmmOrders_steps : Steps e.accounts (e.judgeAmmOrders virtNs).1.accounts := by
  refine visit_steps (fun s : AmmBook × Accounts × List SynthFill => s.2.1) (fun _ => True) e.open_
    (e.amm, e.accounts, []) ?_ trivial
  intro done o rest s _
  refine ⟨?_, trivial⟩
  unfold headVisit
  split
  · exact .refl
  split
  · exact .refl
  split
  · exact .refl
  split
  · exact .refl
  · split
    · exact bookFill_steps _ _ _ rfl
    · exact .refl

theorem judgeTick_steps : Steps e.accounts (e.judgeTick t virtNs out).1.accounts := by
  unfold judgeTick
  split
  · split
    · exact .refl
    · rename_i stored
      exact e.markFill_steps t virtNs out stored
  · split
    · exact .refl
    split
    · exact .refl
    split
    · exact .refl
    · rename_i stored
      exact e.cross_steps t virtNs out stored

/-! ### The settlement passes -/

theorem foldl_steps {α : Type} {f : FillEngine → α → FillEngine} (each : ∀ e x, Steps e.accounts (f e x).accounts)
    (xs : List α) (e : FillEngine) : Steps e.accounts (xs.foldl f e).accounts := by
  induction xs generalizing e with
  | nil => exact .refl
  | cons x rest ih => exact (each e x).trans (ih _)

theorem settlePass_steps : Steps e.accounts (e.settlePass wallNs).accounts :=
  foldl_steps (fun e entry => .single (.mark e.accounts entry.1 entry.2)) _ e

theorem settleBinary_steps (sym : SymbolId) (s : BinarySettle) : Steps e.accounts (e.settleBinary sym s).accounts := by
  have close := Accounts.Step.settle (e.accounts.mark sym s.value1e6) sym s.value1e6
  have at_value : (e.accounts.mark sym s.value1e6).marks1e6 sym = some s.value1e6 := update_self _ _ _
  rw [at_value] at close
  exact .tail (.single (.mark _ _ _)) close

theorem binaryLoop_steps (wallNs n : Nat) (e : FillEngine) : Steps e.accounts (binaryLoop wallNs n e).accounts := by
  induction n generalizing e with
  | zero => exact .refl
  | succ n ih =>
    rw [binaryLoop]
    split
    · rename_i due _
      have turn : Steps e.accounts (e.binaryTurn due).accounts := by
        rcases due with ⟨sym, _ | s⟩
        · exact .refl
        · exact e.settleBinary_steps sym s
      exact turn.trans (ih _)
    · exact .refl

/-- What a symbol may still do: settle each instance, and halt before it. -/
def turnsLeft (halted : SymbolId → Bool) (entry : SymbolId × List BinarySettle) : Nat :=
  2 * entry.2.length - if halted entry.1 then 1 else 0

def binaryTurns : Nat := (e.binarySettle.map (turnsLeft e.binaryHalted)).sum

theorem binaryNext_found {e : FillEngine} {wallNs : Nat} {due : SymbolId × Option BinarySettle}
    (found : e.binaryNext wallNs = some due) :
    ∃ q, (due.1, q) ∈ e.binarySettle ∧ q ≠ [] ∧ (due.2 = none → e.binaryHalted due.1 = false) := by
  obtain ⟨⟨sym, q⟩, member, here⟩ := exists_of_findSome?_eq_some found
  rcases q with _ | ⟨head, rest⟩
  · cases here
  dsimp only at here
  split_ifs at here with settles halts
  · obtain rfl := Option.some.inj here
    exact ⟨head :: rest, member, cons_ne_nil _ _, fun absent => by cases absent⟩
  · obtain rfl := Option.some.inj here
    exact ⟨head :: rest, member, cons_ne_nil _ _, fun _ => by simpa using halts.2⟩

theorem haltBinary_fewer {e : FillEngine} {sym : SymbolId} {q : List BinarySettle} (member : (sym, q) ∈ e.binarySettle)
    (size : 0 < q.length) (fresh : e.binaryHalted sym = false) : (e.haltBinary sym).binaryTurns < e.binaryTurns := by
  change (e.binarySettle.map (turnsLeft (update e.binaryHalted sym true))).sum < _
  refine sum_lt_sum _ _ ?_ ⟨_, member, ?_⟩
  · intro entry _
    by_cases here : entry.1 = sym
    · simp only [turnsLeft, here, fresh, update_self, if_true, Bool.false_eq_true, if_false]
      omega
    · simp only [turnsLeft, update_of_ne here, le_refl]
  · simp only [turnsLeft, fresh, update_self, if_true, Bool.false_eq_true, if_false]
    omega

theorem settleBinary_fewer {e : FillEngine} {sym : SymbolId} {q : List BinarySettle} (member : (sym, q) ∈ e.binarySettle)
    (size : 0 < q.length) (s : BinarySettle) : (e.settleBinary sym s).binaryTurns < e.binaryTurns := by
  have kept : (e.settleBinary sym s).binaryTurns ≤ ((e.binarySettle.map fun entry =>
      if entry.1 = sym then (entry.1, entry.2.tail) else entry).map
        (turnsLeft (update e.binaryHalted sym false))).sum := (filter_sublist.map _).sum_le_sum fun _ _ => Nat.zero_le _
  refine kept.trans_lt ?_
  rw [map_map]
  have left : ∀ entry : SymbolId × List BinarySettle, entry.1 = sym → turnsLeft (update e.binaryHalted sym false)
      (entry.1, entry.2.tail) = 2 * (entry.2.length - 1) := by
    intro entry here
    simp only [turnsLeft, here, update_self, Bool.false_eq_true, if_false, length_tail, Nat.sub_zero]
  refine sum_lt_sum _ _ ?_ ⟨_, member, ?_⟩
  · intro entry _
    rw [comp_apply]
    by_cases here : entry.1 = sym
    · rw [if_pos here, left entry here, turnsLeft]
      split <;> omega
    · simp only [turnsLeft, here, if_false, update_of_ne here, le_refl]
  · rw [comp_apply, if_pos rfl, left (sym, q) rfl, turnsLeft]
    dsimp only
    split <;> omega

theorem binaryTurn_fewer {e : FillEngine} {wallNs : Nat} {due : SymbolId × Option BinarySettle}
    (found : e.binaryNext wallNs = some due) : (e.binaryTurn due).binaryTurns < e.binaryTurns := by
  obtain ⟨q, member, some_left, fresh⟩ := binaryNext_found found
  have size : 0 < q.length := length_pos_iff.mpr some_left
  rcases due with ⟨sym, _ | s⟩
  · exact haltBinary_fewer member size (fresh rfl)
  · exact settleBinary_fewer member size s

theorem binaryLoop_done (wallNs n : Nat) (e : FillEngine) (enough : e.binaryTurns ≤ n) :
    (binaryLoop wallNs n e).binaryNext wallNs = none := by
  induction n generalizing e with
  | zero =>
    rw [binaryLoop]
    by_contra open_
    obtain ⟨due, found⟩ := Option.ne_none_iff_exists'.mp open_
    exact absurd (binaryTurn_fewer found) (by omega)
  | succ n ih =>
    rw [binaryLoop]
    split
    · rename_i due found
      have fewer := binaryTurn_fewer found
      exact ih _ (by omega)
    · assumption

theorem binaryPass_done : (e.binaryPass wallNs).binaryNext wallNs = none := by
  have enough : e.binaryTurns ≤ e.binaryFuel := sum_le_sum fun entry _ => Nat.sub_le _ _
  exact binaryLoop_done wallNs e.binaryFuel e enough

theorem clocks_steps : Steps e.accounts (e.clocks wallNs).accounts := by
  have options : Steps e.accounts (if wallNs ≥ e.settleDueNs then
      ({ e with lastWallNs := wallNs }).settlePass wallNs else { e with lastWallNs := wallNs }).accounts := by
    split
    · exact settlePass_steps { e with lastWallNs := wallNs } wallNs
    · exact .refl
  refine options.trans ?_
  unfold clocks
  dsimp only
  generalize (if wallNs ≥ e.settleDueNs then _ else _ : FillEngine) = middle
  split
  · exact binaryLoop_steps _ _ _
  · exact .refl

theorem settleExpired_steps : Steps e.accounts e.settleExpired.accounts := by
  unfold settleExpired
  split
  · exact .refl
  refine (e.settlePass_steps e.lastWallNs).trans (foldl_steps ?_ _ _)
  intro e sym
  unfold closeExpired
  split
  · exact .refl
  · split
    · exact .single (.settle _ _ _)
    · exact .refl

/-! ### Calls -/

theorem queueTick_steps : Steps e.accounts (e.queueTick t virtNs).1.accounts := by
  unfold queueTick
  split
  · exact drainQueue_steps { e with queue := e.queue.onBook t.sym _ virtNs } []
  · exact .refl

theorem markTick_steps : Steps e.accounts (e.markTick t).accounts := by
  unfold markTick
  split
  · exact .single (.mark _ _ _)
  · exact .refl

theorem onRecord_steps (virtNs wallNs : Nat) : Steps e.accounts (e.onRecord t virtNs wallNs).1.accounts := by
  unfold onRecord
  split
  · exact .refl
  have before : Steps e.accounts (((e.expire t.sym virtNs).clocks wallNs).queueTick t virtNs).1.accounts :=
    (clocks_steps (e.expire t.sym virtNs) wallNs).trans (queueTick_steps _ t virtNs)
  dsimp only
  split
  · exact before
  · exact before.trans ((markTick_steps _ t).trans (judgeTick_steps _ t virtNs _))

theorem onTrade_steps (sym : SymbolId) (px q : Int) (sell : Bool) (virtNs : Nat) :
    Steps e.accounts (e.onTrade sym px q sell virtNs).1.accounts := by
  unfold onTrade
  split
  · exact drainQueue_steps { e with queue := e.queue.onPrint sym px q sell virtNs } []
  · exact .refl

theorem onAmmSignal_steps (sym : SymbolId) (payload : Payload) (virtNs wallNs : Nat) :
    Steps e.accounts (e.onAmmSignal sym payload virtNs wallNs).1.accounts := by
  unfold onAmmSignal
  dsimp only
  split
  · split
    · exact .single (.mark _ _ _)
    · exact .refl
  · exact judgeAmmOrders_steps { e with amm := (e.amm.observe sym payload).1, lastWallNs := wallNs } virtNs
  · exact .refl
  · exact .refl

theorem intake_accounts (o : Order) (emitVirt : Nat) : (e.intake o emitVirt).accounts = e.accounts := by
  unfold intake
  split
  · unfold intakeCancel intakeQueueCancel
    repeat' split
    all_goals rfl
  · unfold intakeModify intakeQueueModify
    dsimp only
    repeat' split
    all_goals rfl
  · unfold intakePlace intakeQueuePlace
    repeat' split
    all_goals rfl
  · rfl

theorem step_steps (op : EngineOp) : Steps e.accounts (e.step op).accounts := by
  unfold step call
  split
  · exact .refl
  cases op with
  | intake o emitVirt => exact (e.intake_accounts o emitVirt).symm ▸ .refl
  | intakeDelayed o emitVirt delayNs => exact (intake_accounts _ o emitVirt).symm ▸ .refl
  | record t virtNs wallNs => exact e.onRecord_steps t virtNs wallNs
  | trade sym px q sell virtNs => exact e.onTrade_steps sym px q sell virtNs
  | ammSignal sym payload virtNs wallNs => exact e.onAmmSignal_steps sym payload virtNs wallNs
  | setOptExpiry sym expiryNs =>
    dsimp only [setOptExpiry]
    split <;> exact .refl
  | setOptSettle sym value =>
    dsimp only [setOptSettle]
    split <;> exact .refl
  | finish => exact e.settleExpired_steps
  | _ => exact .refl

theorem run_conserved (params : ModelParams) (boundaryVirtNs : Nat) (ops : List EngineOp) :
    (run step (new params boundaryVirtNs) ops).accounts.Conserved :=
  run_invariant (P := fun e : FillEngine => e.accounts.Conserved) Accounts.new_conserved
    (fun e op conserved => (e.step_steps op).conserved conserved) ops

/-- With no fill before its symbol's first mark, after every call and for both books. -/
theorem cash_is_conserved (params : ModelParams) (boundaryVirtNs : Nat) (ops : List EngineOp)
    (seen : (run step (new params boundaryVirtNs) ops).accounts.blind = false) :
    let a := (run step (new params boundaryVirtNs) ops).accounts
    a.full.Accounted a.marks1e6 ∧ a.oos.Accounted a.marks1e6 := by
  obtain ⟨full, oos⟩ := run_conserved params boundaryVirtNs ops
  exact ⟨(full.2 seen).accounted full.1, (oos.2 seen).accounted oos.1⟩

/-- A bid of one contract at 100 on a queue symbol. -/
def postOnlyBid : Order :=
  ⟨⟨0, 67108865, .bid, .maker, true, 100000000, 1000000, 1, 0, 4, 0⟩, .place, 0⟩

def quoted (bid ask : Int) : Paper.Tick := ⟨0, 67108865, false, ⟨bid, ask, 1000000, 1000000⟩⟩

def noDelay : ModelParams := ⟨fun _ => 0, 0⟩

theorem marked_then_printed_is_conserved :
    (run step (new noDelay 0)
      [.record (quoted 100000000 102000000) 1 1, .intake postOnlyBid 2, .trade 67108865 99000000 1000000 true 3,
        .record (quoted 49000000 51000000) 4 4]).accounts.full.posQty1e6 67108865 = 1000000 ∧
    let a := (run step (new noDelay 0)
      [.record (quoted 100000000 102000000) 1 1, .intake postOnlyBid 2, .trade 67108865 99000000 1000000 true 3,
        .record (quoted 49000000 51000000) 4 4]).accounts
    a.full.Accounted a.marks1e6 ∧ a.oos.Accounted a.marks1e6 :=
  ⟨by decide, cash_is_conserved _ _ _ (by decide)⟩

/-- The bid fills by a print before the symbol's first mark. The mark that follows moves no total. -/
def printedFirst : List EngineOp :=
  [.intake postOnlyBid 2, .trade 67108865 99000000 1000000 true 3, .record (quoted 49000000 51000000) 4 4]

theorem printedFirst_elsewhere {s : SymbolId} (apart : s ≠ 67108865) :
    (run step (new noDelay 0) printedFirst).accounts.full.entries s = ⟨0, 0⟩ ∧
    (run step (new noDelay 0) printedFirst).accounts.oos.entries s = ⟨0, 0⟩ :=
  ⟨update_of_ne apart _ _, update_of_ne apart _ _⟩

theorem position_before_first_mark_is_lost :
    ¬ ∀ (params : ModelParams) (boundaryVirtNs : Nat) (ops : List EngineOp),
      let a := (run step (new params boundaryVirtNs) ops).accounts
      (∀ s, (a.full.entries s).qty1e6 ≠ 0 ∨ (a.oos.entries s).qty1e6 ≠ 0 → (a.marks1e6 s).isSome) →
        a.full.unrealSum1e12 =
          total fun s => (a.full.entries s).qty1e6 * (a.marks1e6 s).getD 0 - (a.full.entries s).cost1e12 := by
  intro claim
  have marked : ∀ s, ((run step (new noDelay 0) printedFirst).accounts.full.entries s).qty1e6 ≠ 0 ∨
      ((run step (new noDelay 0) printedFirst).accounts.oos.entries s).qty1e6 ≠ 0 →
      ((run step (new noDelay 0) printedFirst).accounts.marks1e6 s).isSome := by
    intro s held
    by_cases here : s = 67108865
    · subst here
      decide
    · obtain ⟨full, oos⟩ := printedFirst_elsewhere here
      rw [full, oos] at held
      exact absurd held (by decide)
  have stated := claim noDelay 0 printedFirst marked
  rw [total_change (f := fun _ => 0) 67108865 (fun s apart => by
    rw [(printedFirst_elsewhere apart).1, zero_mul, sub_zero]), total_zero] at stated
  exact absurd stated (by decide)

end FillEngine

end TradingEngine.Backtest
