import TradingEngine.Base.Run

/-!
# Visiting a table whose entries may leave

One pass over a table in order.
-/

namespace TradingEngine.Base

open List

variable {α σ : Type*}

def visit (f : List α → α → List α → σ → Option α × σ) : List α → List α → σ → List α × σ
  | done, [], s => (done, s)
  | done, a :: rest, s => visit f (done ++ (f done a rest s).1.toList) rest (f done a rest s).2

theorem visit_rule {f : List α → α → List α → σ → Option α × σ} {P : List α → List α → σ → Prop}
    (keep : ∀ done a rest s, P done (a :: rest) s → P (done ++ (f done a rest s).1.toList) rest (f done a rest s).2)
    {done rest : List α} {s : σ} (start : P done rest s) :
    P (visit f done rest s).1 [] (visit f done rest s).2 := by
  induction rest generalizing done s with
  | nil => exact start
  | cons a rest ih => exact ih (keep done a rest s start)

theorem visit_each {f : List α → α → List α → σ → Option α × σ} {good : α → Prop} {S : σ → Prop} {R : α → α → Prop}
    (each : ∀ done a rest s, good a → S s → (∀ b, (f done a rest s).1 = some b → good b ∧ R a b) ∧ S (f done a rest s).2)
    {table : List α} {s : σ} (all : ∀ a ∈ table, good a) (start : S s) :
    ∀ b ∈ (visit f [] table s).1, good b ∧ ∃ a ∈ table, R a b := by
  have pass := visit_rule (f := f) (P := fun done rest s => (∀ b ∈ done, good b ∧ ∃ a ∈ table, R a b) ∧
    (∀ a ∈ rest, good a ∧ a ∈ table) ∧ S s)
  refine (pass (fun done a rest s ⟨left, todo, ok⟩ => ?_)
    ⟨fun b member => absurd member not_mem_nil, fun a member => ⟨all a member, member⟩, start⟩).1
  obtain ⟨fine, listed⟩ := todo a mem_cons_self
  obtain ⟨result, next⟩ := each done a rest s fine ok
  refine ⟨fun b member => ?_, fun b member => todo b (mem_cons_of_mem _ member), next⟩
  rcases mem_append.mp member with earlier | here
  · exact left b earlier
  · obtain ⟨good, related⟩ := result b (Option.mem_toList.mp here)
    exact ⟨good, a, listed, related⟩

theorem visit_length_le (f : List α → α → List α → σ → Option α × σ) (table : List α) (s : σ) :
    (visit f [] table s).1.length ≤ table.length := by
  have pass : (visit f [] table s).1.length + ([] : List α).length ≤ table.length := by
    refine visit_rule (P := fun done rest _ => done.length + rest.length ≤ table.length) ?_ (by rw [length_nil, zero_add])
    intro done a rest s bounded
    have one : (f done a rest s).1.toList.length ≤ 1 := by
      cases (f done a rest s).1 <;> simp
    rw [length_append]
    rw [length_cons] at bounded
    omega
  exact pass

theorem visit_related {β τ : Type*} {f : List α → α → List α → σ → Option α × σ}
    {g : List β → β → List β → τ → Option β × τ} {R : α → β → Prop} {S : Nat → σ → τ → Prop}
    (each : ∀ done done' a b rest rest' s t, R a b → S (rest.length + 1) s t →
      List.Forall₂ R (f done a rest s).1.toList (g done' b rest' t).1.toList ∧
        S rest.length (f done a rest s).2 (g done' b rest' t).2)
    {table : List α} {table' : List β} (same : List.Forall₂ R table table') {s : σ} {t : τ} (start : S table.length s t) :
    List.Forall₂ R (visit f [] table s).1 (visit g [] table' t).1 ∧ S 0 (visit f [] table s).2 (visit g [] table' t).2 := by
  have pass : ∀ done done', List.Forall₂ R done done' → List.Forall₂ R (visit f done table s).1 (visit g done' table' t).1 ∧
      S 0 (visit f done table s).2 (visit g done' table' t).2 := by
    induction same generalizing s t with
    | nil => exact fun done done' before => ⟨before, start⟩
    | cons related _ ih =>
      intro done done' before
      obtain ⟨here, next⟩ := each done done' _ _ _ _ s t related start
      exact ih next _ _ (rel_append before here)
  exact pass [] [] .nil

end TradingEngine.Base
