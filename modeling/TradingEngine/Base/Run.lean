import Mathlib

/-!
# Runs

A machine is a step function; a run applies it to a list of inputs in order.
-/

namespace TradingEngine.Base

variable {σ α : Type*}

def run (step : σ → α → σ) : σ → List α → σ
  | s, [] => s
  | s, a :: rest => run step (step s a) rest

variable (step : σ → α → σ)

theorem run_append (s : σ) (xs ys : List α) : run step s (xs ++ ys) = run step (run step s xs) ys := by
  induction xs generalizing s with
  | nil => rfl
  | cons a rest ih => exact ih (step s a)

theorem run_concat (s : σ) (xs : List α) (a : α) :
    run step s (xs ++ [a]) = step (run step s xs) a := run_append step s xs [a]

theorem run_invariant {step : σ → α → σ} {P : σ → Prop} {s : σ} (start : P s)
    (keep : ∀ s a, P s → P (step s a)) (xs : List α) : P (run step s xs) := by
  induction xs generalizing s with
  | nil => exact start
  | cons a rest ih => exact ih (keep s a start)

theorem run_invariant_of {step : σ → α → σ} {P : σ → Prop} {ok : α → Prop} {s : σ} (start : P s)
    (keep : ∀ s a, ok a → P s → P (step s a)) {xs : List α} (all : ∀ a ∈ xs, ok a) :
    P (run step s xs) := by
  induction xs generalizing s with
  | nil => exact start
  | cons a rest ih =>
    exact ih (keep s a (all a (by simp)) start) fun b member => all b (by simp [member])

/-- Every step of the run meets a condition on the state before it. -/
def Along (step : σ → α → σ) (P : σ → α → Prop) : σ → List α → Prop
  | _, [] => True
  | s, a :: rest => P s a ∧ Along step P (step s a) rest

instance Along.decidable {step : σ → α → σ} {P : σ → α → Prop} [∀ s a, Decidable (P s a)] :
    (s : σ) → (xs : List α) → Decidable (Along step P s xs)
  | _, [] => .isTrue trivial
  | s, a :: rest =>
    have : Decidable (Along step P (step s a) rest) := Along.decidable (step s a) rest
    inferInstanceAs (Decidable (P s a ∧ Along step P (step s a) rest))

theorem along_append {step : σ → α → σ} {P : σ → α → Prop} {s : σ} {xs ys : List α} :
    Along step P s (xs ++ ys) ↔ Along step P s xs ∧ Along step P (run step s xs) ys := by
  induction xs generalizing s with
  | nil => exact (iff_of_eq (true_and _)).symm
  | cons x rest ih => exact (and_congr_right fun _ => ih).trans and_assoc.symm

theorem along_concat {step : σ → α → σ} {P : σ → α → Prop} {s : σ} {xs : List α} {a : α} :
    Along step P s (xs ++ [a]) ↔ Along step P s xs ∧ P (run step s xs) a :=
  along_append.trans (and_congr_right fun _ => iff_of_eq (and_true _))

theorem run_invariant_along {step : σ → α → σ} {P : σ → α → Prop} {I : σ → Prop} {s : σ} (start : I s)
    (keep : ∀ s a, P s a → I s → I (step s a)) {xs : List α} (along : Along step P s xs) : I (run step s xs) := by
  induction xs generalizing s with
  | nil => exact start
  | cons a rest ih => exact ih (keep s a along.1 start) along.2

theorem along_invariant {step : σ → α → σ} {P Q : σ → α → Prop} {I : σ → Prop} {s : σ} (start : I s)
    (keep : ∀ s a, P s a → I s → Q s a ∧ I (step s a)) {xs : List α} (along : Along step P s xs) : Along step Q s xs := by
  induction xs generalizing s with
  | nil => trivial
  | cons a rest ih =>
    obtain ⟨here, next⟩ := keep s a along.1 start
    exact ⟨here, ih next along.2⟩

theorem run_related {τ : Type*} {step : σ → α → σ} {step' : τ → α → τ} {P : σ → α → Prop} {R : σ → τ → Prop} {s : σ} {t : τ}
    (start : R s t) (keep : ∀ s t a, P s a → R s t → R (step s a) (step' t a)) {xs : List α} (along : Along step P s xs) :
    R (run step s xs) (run step' t xs) := by
  induction xs generalizing s t with
  | nil => exact start
  | cons a rest ih => exact ih (keep s t a along.1 start) along.2

/-- The answers to a list of inputs and the state after them. -/
def replies {β : Type*} (step : σ → α → β × σ) : σ → List α → List β × σ
  | s, [] => ([], s)
  | s, a :: rest =>
    let first := step s a
    let others := replies step first.2 rest
    (first.1 :: others.1, others.2)

theorem replies_concat {β : Type*} (step : σ → α → β × σ) (s : σ) (xs : List α) (a : α) :
    replies step s (xs ++ [a]) =
      ((replies step s xs).1 ++ [(step (replies step s xs).2 a).1], (step (replies step s xs).2 a).2) := by
  induction xs generalizing s with
  | nil => rfl
  | cons x rest ih =>
    rw [List.cons_append, replies, ih, replies]
    rfl

theorem replies_last_two {β : Type*} (step : σ → α → β × σ) (s : σ) (xs : List α) (a b : α) :
    (replies step s (xs ++ [a] ++ [b])).1.getLast? = some (step (step (replies step s xs).2 a).2 b).1 := by
  rw [replies_concat, List.getLast?_concat, replies_concat]

theorem replies_related {β τ : Type*} {step : σ → α → β × σ} {step' : τ → α → β × τ} {R : σ → τ → Prop} {s : σ} {t : τ}
    (start : R s t) (keep : ∀ s t a, R s t → (step s a).1 = (step' t a).1 ∧ R (step s a).2 (step' t a).2) (xs : List α) :
    (replies step s xs).1 = (replies step' t xs).1 ∧ R (replies step s xs).2 (replies step' t xs).2 := by
  induction xs generalizing s t with
  | nil => exact ⟨rfl, start⟩
  | cons x rest ih =>
    obtain ⟨same, next⟩ := keep s t x start
    obtain ⟨others, final⟩ := ih next
    refine ⟨?_, final⟩
    rw [replies, replies]
    dsimp only
    rw [same, others]

end TradingEngine.Base
