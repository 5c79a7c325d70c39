import TradingEngine.Base.Run
import TradingEngine.Base.Scan

/-!
# Machines that emit events

A step returns the next state and what it emitted.
-/

namespace TradingEngine.Base

open List

variable {σ α ε : Type*} {I : σ → List ε → Prop}

def Keeps (I : σ → List ε → Prop) (f : σ → σ × List ε) : Prop :=
  ∀ s past, I s past → I (f s).1 (past ++ (f s).2)

theorem Keeps.quiet {f : σ → σ} (keep : ∀ s past, I s past → I (f s) past) : Keeps I fun s => (f s, []) := by
  intro s past h
  rw [append_nil]
  exact keep s past h

theorem Keeps.ite {c : σ → Prop} [DecidablePred c] {f g : σ → σ × List ε} (yes : Keeps I f) (no : Keeps I g) :
    Keeps I fun s => if c s then f s else g s := by
  intro s past h
  by_cases hc : c s
  · simp only [if_pos hc]
    exact yes s past h
  · simp only [if_neg hc]
    exact no s past h

theorem Keeps.andThen {f g : σ → σ × List ε} (first : Keeps I f) (second : Keeps I g) :
    Keeps I fun s => ((g (f s).1).1, (f s).2 ++ (g (f s).1).2) := by
  intro s past h
  rw [← append_assoc]
  exact second _ _ (first s past h)

def sweep (f : σ → Nat → σ × List ε) (n : Nat) (s : σ) : σ × List ε :=
  loop (fun i acc => let out := f acc.1 i; (out.1, acc.2 ++ out.2)) n (s, [])

theorem Keeps.sweep {f : σ → Nat → σ × List ε} (each : ∀ i, Keeps I fun s => f s i) (n : Nat) :
    Keeps I (sweep f n) := by
  intro s past h
  refine loop_invariant (P := fun _ (acc : σ × List ε) => I acc.1 (past ++ acc.2)) ?_ fun i acc _ kept => ?_
  · rwa [append_nil]
  · rw [← append_assoc]
    exact each i acc.1 _ kept

def watch (act : σ → α → σ × List ε) (s : σ × List ε) (a : α) : σ × List ε :=
  ((act s.1 a).1, s.2 ++ (act s.1 a).2)

theorem watch_invariant {act : σ → α → σ × List ε} (keep : ∀ a, Keeps I fun s => act s a) {s : σ × List ε}
    (start : I s.1 s.2) (xs : List α) : I (run (watch act) s xs).1 (run (watch act) s xs).2 :=
  run_invariant (P := fun s : σ × List ε => I s.1 s.2) start (fun s a h => keep a s.1 s.2 h) xs

theorem watch_sweep (act : σ → α → σ × List ε) (op : Nat → α) (n : Nat) (s : σ) (past : List ε) :
    run (watch act) (s, past) ((range n).map op) =
      ((sweep (fun s i => act s (op i)) n s).1, past ++ (sweep (fun s i => act s (op i)) n s).2) := by
  induction n with
  | zero => simp [run, sweep, loop]
  | succ n ih =>
    rw [range_succ, map_append, run_append, ih]
    simp [run, watch, sweep, loop]

def Clean (ok : List ε → ε → Prop) (trace : List ε) : Prop := ∀ before e, before ++ [e] <+: trace → ok before e

theorem clean_nil (ok : List ε → ε → Prop) : Clean ok [] := by
  intro before e start
  simp at start

theorem Clean.concat {ok : List ε → ε → Prop} {trace : List ε} (h : Clean ok trace) {e : ε} (last : ok trace e) :
    Clean ok (trace ++ [e]) := by
  intro before x start
  rcases prefix_concat_iff.mp start with whole | earlier
  · obtain ⟨rfl, rfl⟩ := concat_inj.mp (by simpa only [concat_eq_append] using whole)
    exact last
  · exact h before x earlier

theorem last_unique (kind : ε → Prop) {before before' since since' : List ε} {e e' : ε}
    (same : before ++ e :: since = before' ++ e' :: since') (here : kind e) (here' : kind e')
    (none : ∀ x ∈ since, ¬ kind x) (none' : ∀ x ∈ since', ¬ kind x) : e = e' := by
  rcases append_eq_append_iff.mp same with ⟨_ | ⟨x, gap⟩, _, rest⟩ | ⟨_ | ⟨x, gap⟩, _, rest⟩
  · exact (cons.inj rest).1
  · exact absurd here' (none e' (by simp [(cons.inj rest).2]))
  · exact (cons.inj rest).1.symm
  · exact absurd here (none' e (by simp [(cons.inj rest).2]))

end TradingEngine.Base
