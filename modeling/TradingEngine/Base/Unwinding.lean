import TradingEngine.Base.Run

/-!
# Hidden inputs

A machine that also answers, and a view of its states.
-/

namespace TradingEngine.Base

variable {σ α ω τ : Type*}

def answers (step : σ → α → σ) (answer : σ → α → Option ω) : σ → List α → List ω
  | _, [] => []
  | s, a :: rest => (answer s a).toList ++ answers step answer (step s a) rest

structure Unwinds (step : σ → α → σ) (answer : σ → α → Option ω) (view : σ → τ) (seen : α → Bool) : Prop where
  hidden : ∀ s a, seen a = false → view (step s a) = view s ∧ answer s a = none
  shown : ∀ s t a, seen a = true → view s = view t → view (step s a) = view (step t a) ∧ answer s a = answer t a

theorem Unwinds.without_hidden {step : σ → α → σ} {answer : σ → α → Option ω} {view : σ → τ} {seen : α → Bool}
    (unwinds : Unwinds step answer view seen) {s t : σ} (same : view s = view t) (xs : List α) :
    view (run step s xs) = view (run step t (xs.filter seen)) ∧
      answers step answer s xs = answers step answer t (xs.filter seen) := by
  induction xs generalizing s t with
  | nil => exact ⟨same, rfl⟩
  | cons a rest ih =>
    by_cases visible : seen a = true
    · obtain ⟨next, said⟩ := unwinds.shown s t a visible same
      obtain ⟨views, later⟩ := ih next
      rw [List.filter_cons_of_pos visible]
      exact ⟨views, by rw [answers, answers, said, later]⟩
    · have quiet : seen a = false := by simpa using visible
      obtain ⟨still, silent⟩ := unwinds.hidden s a quiet
      obtain ⟨views, later⟩ := ih (still.trans same)
      rw [List.filter_cons_of_neg visible]
      exact ⟨views, by rw [answers, silent, later]; rfl⟩

end TradingEngine.Base
