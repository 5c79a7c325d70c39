import TradingEngine.Base.Unwinding
import TradingEngine.Paper.Held

/-!
# Shadows and classes keep apart

The shadow calls are hidden inputs of the held book. The class counters count the pending orders, so a class is
refused by its own share only.
-/

namespace TradingEngine.Paper
open Base CoreTypes Queue List

inductive HeldOp where
  | onQuote (t : Tick)
  | onDepth (d : DepthTopK)
  | submit (o : HeldOrder)
  | judgeDue (nowNs : Nat)
  | submitShadow (o : HeldOrder) (delayClass : Nat)
  | judgeShadows (nowNs : Nat)

def HeldOp.isReal : HeldOp → Bool
  | .submitShadow _ _ | .judgeShadows _ => false
  | _ => true

/-- What a real call tells its caller. -/
inductive HeldAnswer where
  | accepted (yes : Bool)
  | judged (log : List (HeldOrder × Verdict))

namespace HeldBook

variable (b : HeldBook)

def step : HeldOp → HeldBook
  | .onQuote t => b.onQuote t
  | .onDepth d => b.onDepth d
  | .submit o => (b.submit o).1
  | .judgeDue nowNs => (b.judgeDue nowNs).1
  | .submitShadow o delayClass => (b.submitShadow o delayClass).1
  | .judgeShadows nowNs => (b.judgeShadows nowNs).1

def answer : HeldOp → Option HeldAnswer
  | .submit o => some (.accepted (b.submit o).2)
  | .judgeDue nowNs => some (.judged (b.judgeDue nowNs).2)
  | _ => none

def real : HeldBook := { b with shadow := [], shadowRefused := 0 }

theorem onDepth_real (d : DepthTopK) : (b.onDepth d).real = b.real.onDepth d := by
  unfold onDepth
  split
  · rfl
  · split <;> rfl

theorem onQuote_real (t : Tick) : (b.onQuote t).real = b.real.onQuote t := by
  unfold onQuote withdraw publish
  split
  · rfl
  split
  · split <;> rfl
  · rw [show b.real.touchLast = b.touchLast from rfl]
    split <;> rfl

variable (o : HeldOrder) (nowNs : Nat)

theorem submit_real : (b.submit o).1.real = (b.real.submit o).1 ∧ (b.submit o).2 = (b.real.submit o).2 := by
  unfold submit
  split
  · exact ⟨rfl, rfl⟩
  · rw [show b.real.pending = b.pending from rfl, show b.real.classLen = b.classLen from rfl]
    dsimp only
    split <;> exact ⟨rfl, rfl⟩

theorem judgeLeg_real (k : Nat) :
    (b.judgeLeg o k).1 = (b.real.judgeLeg o k).1 ∧ (b.judgeLeg o k).2.real = (b.real.judgeLeg o k).2 := by
  unfold judgeLeg
  rw [show b.real.lags k = b.lags k from rfl]
  split <;> exact ⟨rfl, by simp only [real]⟩

theorem judgeOne_real : (b.judgeOne o).1 = (b.real.judgeOne o).1 ∧ (b.judgeOne o).2.real = (b.real.judgeOne o).2 := by
  unfold judgeOne
  split
  · exact ⟨rfl, rfl⟩
  rename_i k held
  by_cases option : isOption k = true
  · simp only [if_pos option]
    exact ⟨rfl, rfl⟩
  · obtain ⟨verdict, after⟩ := b.judgeLeg_real o k
    simp only [if_neg option, ← after]
    exact ⟨verdict, rfl⟩

theorem visit_real (table done : List HeldOrder) (b : HeldBook) (log : List (HeldOrder × Verdict)) :
    (visit (dueVisit nowNs) done table (b, log)).1 = (visit (dueVisit nowNs) done table (b.real, log)).1 ∧
    (visit (dueVisit nowNs) done table (b, log)).2.1.real = (visit (dueVisit nowNs) done table (b.real, log)).2.1 ∧
    (visit (dueVisit nowNs) done table (b, log)).2.2 = (visit (dueVisit nowNs) done table (b.real, log)).2.2 := by
  induction table generalizing done b log with
  | nil => exact ⟨rfl, rfl, rfl⟩
  | cons o rest ih =>
    by_cases early : nowNs < o.dueNs
    · simp only [visit, dueVisit, if_pos early]
      exact ih _ b log
    · obtain ⟨verdict, after⟩ := b.judgeOne_real o
      simp only [visit, dueVisit, if_neg early, ← after, ← verdict]
      exact ih _ _ _

theorem judgeDue_real :
    (b.judgeDue nowNs).1.real = (b.real.judgeDue nowNs).1 ∧ (b.judgeDue nowNs).2 = (b.real.judgeDue nowNs).2 := by
  obtain ⟨left, after, log⟩ := visit_real nowNs b.pending [] b []
  unfold judgeDue
  rw [show b.real.pending = b.pending from rfl]
  dsimp only
  rw [← left, ← after, ← log]
  exact ⟨rfl, rfl⟩

theorem submitShadow_real (delayClass : Nat) : (b.submitShadow o delayClass).1.real = b.real := by
  unfold submitShadow
  split
  · rfl
  · split
    · rfl
    · split <;> rfl

theorem shadows_hidden : Unwinds step answer real HeldOp.isReal where
  hidden b op quiet := by
    cases op with
    | submitShadow o delayClass => exact ⟨b.submitShadow_real o delayClass, rfl⟩
    | judgeShadows nowNs => exact ⟨rfl, rfl⟩
    | _ => cases quiet
  shown b c op loud same := by
    cases op with
    | onQuote t => exact ⟨by rw [step, step, onQuote_real, onQuote_real, same], rfl⟩
    | onDepth d => exact ⟨by rw [step, step, onDepth_real, onDepth_real, same], rfl⟩
    | submit o =>
      exact ⟨by rw [step, step, (b.submit_real o).1, (c.submit_real o).1, same],
        by rw [answer, answer, (b.submit_real o).2, (c.submit_real o).2, same]⟩
    | judgeDue nowNs =>
      exact ⟨by rw [step, step, (b.judgeDue_real nowNs).1, (c.judgeDue_real nowNs).1, same],
        by rw [answer, answer, (b.judgeDue_real nowNs).2, (c.judgeDue_real nowNs).2, same]⟩
    | _ => cases loud

end HeldBook

def HeldOrder.shareClass? (o : HeldOrder) : Option ShareClass := (quoteIndex o.sym).map shareClass

def ofClass (c : ShareClass) (table : List HeldOrder) : List HeldOrder :=
  table.filter fun o => o.shareClass? = some c

theorem ofClass_append (c : ShareClass) (xs ys : List HeldOrder) :
    ofClass c (xs ++ ys) = ofClass c xs ++ ofClass c ys := filter_append xs ys

theorem ofClass_cons {o : HeldOrder} {own : ShareClass} (held : o.shareClass? = some own) (c : ShareClass)
    (table : List HeldOrder) : (ofClass c (o :: table)).length = (ofClass c table).length + if own = c then 1 else 0 := by
  unfold ofClass
  by_cases mine : own = c
  · rw [filter_cons_of_pos (by simp [held, mine]), length_cons, if_pos mine]
  · rw [filter_cons_of_neg (by simp [held, mine]), if_neg mine]
    rfl

def Filed (table : List HeldOrder) : Prop := ∀ o ∈ table, ∃ c, o.shareClass? = some c

theorem Filed.sum {table : List HeldOrder} (filed : Filed table) :
    (ofClass .options table).length + (ofClass .quarter table).length + (ofClass .five table).length
      = table.length := by
  induction table with
  | nil => rfl
  | cons o rest ih =>
    obtain ⟨own, held⟩ := filed o mem_cons_self
    have rests := ih fun p member => filed p (mem_cons_of_mem o member)
    rw [ofClass_cons held, ofClass_cons held, ofClass_cons held, length_cons, ← rests]
    cases own <;> simp <;> omega

namespace HeldBook

/-- The counters say how many orders of each class the table has, within the shares. -/
structure Counted (b : HeldBook) (table : List HeldOrder) : Prop where
  filed : Filed table
  count : ∀ c, b.classLen c = (ofClass c table).length
  share : ∀ c, (ofClass c table).length ≤ c.share

theorem Counted.of_same {b after : HeldBook} {table : List HeldOrder} (counted : b.Counted table)
    (same : after.classLen = b.classLen) : after.Counted table :=
  ⟨counted.filed, fun c => by rw [same, counted.count], counted.share⟩

variable (b : HeldBook)

theorem onDepth_keeps (d : DepthTopK) : (b.onDepth d).classLen = b.classLen ∧ (b.onDepth d).pending = b.pending := by
  unfold onDepth
  split
  · exact ⟨rfl, rfl⟩
  · split <;> exact ⟨rfl, rfl⟩

theorem onQuote_keeps (t : Tick) : (b.onQuote t).classLen = b.classLen ∧ (b.onQuote t).pending = b.pending := by
  unfold onQuote withdraw publish
  split
  · exact ⟨rfl, rfl⟩
  · split <;> split <;> exact ⟨rfl, rfl⟩

variable (o : HeldOrder)

theorem submitShadow_keeps (delayClass : Nat) :
    (b.submitShadow o delayClass).1.classLen = b.classLen ∧ (b.submitShadow o delayClass).1.pending = b.pending := by
  have same := b.submitShadow_real o delayClass
  have lens := congrArg classLen same
  have table := congrArg pending same
  exact ⟨lens, table⟩

theorem submit_accepts {b : HeldBook} (counted : b.Counted b.pending) (o : HeldOrder) :
    (b.submit o).2 = true ↔ 0 < o.qty1e6 ∧ 0 < o.px1e6 ∧
      ∃ c, o.shareClass? = some c ∧ (ofClass c b.pending).length < c.share := by
  have total := counted.filed.sum
  have options := counted.share .options
  have quarter := counted.share .quarter
  have five := counted.share .five
  unfold submit HeldOrder.shareClass?
  cases held : quoteIndex o.sym with
  | none => simp
  | some k =>
    have room : (ofClass (shareClass k) b.pending).length < (shareClass k).share → b.pending.length < heldPending := by
      intro spare
      unfold heldPending
      revert spare
      cases shareClass k <;> intro spare <;> omega
    simp only [Option.map_some, Option.some.injEq, exists_eq_left', counted.count]
    split
    · rename_i refused
      constructor
      · intro never
        cases never
      · rintro ⟨size, price, spare⟩
        have := room spare
        omega
    · rename_i fine
      simp only [not_or, not_le, ge_iff_le] at fine
      exact ⟨fun _ => ⟨fine.2.2.1, fine.2.2.2, fine.2.1⟩, fun _ => rfl⟩

theorem submit_counted {b : HeldBook} (counted : b.Counted b.pending) (o : HeldOrder) :
    (b.submit o).1.Counted (b.submit o).1.pending := by
  unfold submit
  split
  · exact counted
  rename_i k held
  have own : o.shareClass? = some (shareClass k) := by rw [HeldOrder.shareClass?, held]; rfl
  dsimp only
  split
  · exact counted
  rename_i fine
  simp only [not_or, not_le, ge_iff_le, counted.count] at fine
  have grown : ∀ c, (ofClass c (b.pending ++ [o])).length =
      (ofClass c b.pending).length + if shareClass k = c then 1 else 0 := by
    intro c
    rw [ofClass_append, length_append, ofClass_cons own]
    simp [ofClass]
  refine ⟨fun p member => ?_, fun c => ?_, fun c => ?_⟩
  · rcases mem_append.mp member with old | new
    · exact counted.filed p old
    · exact ⟨_, mem_singleton.mp new ▸ own⟩
  · rw [grown]
    by_cases mine : c = shareClass k
    · subst mine
      simp [counted.count]
    · simp [Function.update_of_ne mine, counted.count, Ne.symm mine]
  · rw [grown]
    have within := counted.share c
    split
    · rename_i mine
      subst mine
      omega
    · omega

theorem judgeLeg_classLen (k : Nat) : (b.judgeLeg o k).2.classLen = b.classLen := by
  unfold judgeLeg
  split <;> rfl

theorem judgeOne_classLen {b : HeldBook} {o : HeldOrder} {own : ShareClass} (held : o.shareClass? = some own) :
    (b.judgeOne o).2.classLen = Function.update b.classLen own (b.classLen own - 1) := by
  unfold HeldOrder.shareClass? at held
  obtain ⟨k, found, rfl⟩ := Option.map_eq_some_iff.mp held
  unfold judgeOne
  rw [found]
  by_cases option : isOption k = true
  · simp only [if_pos option]
    rfl
  · simp only [if_neg option]
    rw [judgeLeg_classLen]

theorem dueVisit_counted (nowNs : Nat) (done : List HeldOrder) (o : HeldOrder) (rest : List HeldOrder)
    (s : HeldBook × List (HeldOrder × Verdict)) (counted : s.1.Counted (done ++ o :: rest)) :
    (dueVisit nowNs done o rest s).2.1.Counted (done ++ (dueVisit nowNs done o rest s).1.toList ++ rest) := by
  unfold dueVisit
  split
  · simpa using counted
  obtain ⟨own, held⟩ := counted.filed o (by simp)
  have left : ∀ c, (ofClass c (done ++ o :: rest)).length =
      (ofClass c (done ++ rest)).length + if own = c then 1 else 0 := by
    intro c
    rw [ofClass_append, ofClass_append, length_append, length_append, ofClass_cons held, Nat.add_assoc]
  simp only [Option.toList_none, append_nil]
  refine ⟨fun p member => counted.filed p ?_, fun c => ?_, fun c => ?_⟩
  · rcases mem_append.mp member with before | behind
    · exact mem_append_left _ before
    · exact mem_append_right _ (mem_cons_of_mem o behind)
  · have counts := counted.count c
    rw [left c] at counts
    rw [judgeOne_classLen held]
    by_cases mine : c = own
    · subst mine
      simp [counts]
    · rw [Function.update_of_ne mine, counts, if_neg (Ne.symm mine), Nat.add_zero]
  · have within := counted.share c
    rw [left c] at within
    omega

theorem judgeDue_counted {b : HeldBook} (counted : b.Counted b.pending) (nowNs : Nat) :
    (b.judgeDue nowNs).1.Counted (b.judgeDue nowNs).1.pending := by
  have pass := visit_rule (f := dueVisit nowNs) (P := fun done rest s => s.1.Counted (done ++ rest))
    (fun done o rest s => dueVisit_counted nowNs done o rest s)
    (show (b, ([] : List (HeldOrder × Verdict))).1.Counted ([] ++ b.pending) from counted)
  rw [append_nil] at pass
  exact pass.of_same rfl

theorem new_counted : new.Counted new.pending := ⟨nofun, fun _ => rfl, fun _ => Nat.zero_le _⟩

theorem step_counted (op : HeldOp) (counted : b.Counted b.pending) : (b.step op).Counted (b.step op).pending := by
  cases op with
  | onQuote t =>
    obtain ⟨lens, table⟩ := b.onQuote_keeps t
    rw [step, table]
    exact counted.of_same lens
  | onDepth d =>
    obtain ⟨lens, table⟩ := b.onDepth_keeps d
    rw [step, table]
    exact counted.of_same lens
  | submit o => exact submit_counted counted o
  | judgeDue nowNs => exact judgeDue_counted counted nowNs
  | submitShadow o delayClass =>
    obtain ⟨lens, table⟩ := b.submitShadow_keeps o delayClass
    rw [step, table]
    exact counted.of_same lens
  | judgeShadows nowNs => exact counted.of_same rfl

/-- A run and the run without its shadow calls answer alike and hold the same book. The counters are those of the
pending orders by class, and an order is accepted by its own fields and the orders of its class. -/
theorem shadows_and_classes_apart (ops : List HeldOp) :
    answers step answer new ops = answers step answer new (ops.filter HeldOp.isReal) ∧
    (run step new ops).real = (run step new (ops.filter HeldOp.isReal)).real ∧
    (∀ c, (run step new ops).classLen c = (ofClass c (run step new ops).pending).length) ∧
    (run step new ops).classLen .options + (run step new ops).classLen .quarter + (run step new ops).classLen .five
      = (run step new ops).pending.length ∧
    ∀ o, ((run step new ops).submit o).2 = true ↔ 0 < o.qty1e6 ∧ 0 < o.px1e6 ∧
      ∃ c, o.shareClass? = some c ∧ (ofClass c (run step new ops).pending).length < c.share := by
  obtain ⟨books, said⟩ := shadows_hidden.without_hidden (s := new) rfl ops
  have counted : (run step new ops).Counted (run step new ops).pending :=
    run_invariant (P := fun b : HeldBook => b.Counted b.pending) new_counted step_counted ops
  refine ⟨said, books, counted.count, ?_, submit_accepts counted⟩
  rw [counted.count, counted.count, counted.count]
  exact counted.filed.sum

end HeldBook

end TradingEngine.Paper
