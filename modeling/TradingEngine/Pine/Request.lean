import TradingEngine.Base.Run

/-!
# Series of another timeframe

`request.security` reads a published series at the parent's bar: the element it is aligned to, and with gaps only an
element that is due and newer than the last one.
-/

namespace TradingEngine.Pine

open List

variable {α : Type*} {n k : Nat} {po pc : Int}

structure SharedSeries (α : Type*) where
  values : List α
  openMs : List Int
  closeMs : List Int
  lastConfirmed : Bool
  deriving DecidableEq, Repr

structure Aligned where
  idx : Nat
  confirmed : Bool
  deriving DecidableEq, Repr

/-- Step back over the rows that pass the test, from the last one below `n`. -/
def stepBack (p : Nat → Prop) [DecidablePred p] : Nat → Nat
  | 0 => 0
  | k + 1 => if p k then stepBack p k else k + 1

namespace SharedSeries

section

variable (s : SharedSeries α)

def opens (k : Nat) : Int := s.openMs.getD k 0

def closes (k : Nat) : Int := s.closeMs.getD k 0

/-- All elements but a developing last one. -/
def confirmed : Nat := if s.lastConfirmed then s.values.length else s.values.length - 1

def overlap (po pc : Int) : Nat → Option Nat → Option Nat
  | 0, hit => hit
  | k + 1, hit => if s.closes k ≤ po then hit else overlap po pc k (if s.opens k < pc then some k else hit)

def align (po pc : Int) (look rt dev : Bool) : Option Aligned :=
  let n := s.values.length
  if n = 0 ∨ s.openMs.length ≠ n ∨ s.closeMs.length ≠ n then none
  else
    let last := n - 1
    if look then (s.overlap po pc n none).map fun idx => ⟨idx, !(idx = last && !s.lastConfirmed)⟩
    else if rt ∧ dev ∧ s.lastConfirmed = false ∧ s.opens last < pc then some ⟨last, false⟩
    else
      match stepBack (fun k => pc < s.closes k) s.confirmed with
      | 0 => none
      | k + 1 => some ⟨k, true⟩

def intrabars (po pc : Int) : Nat × Nat :=
  let n := s.values.length
  if n = 0 ∨ s.openMs.length ≠ n then (0, 0)
  else
    let hi := stepBack (fun k => pc ≤ s.opens k) n
    (stepBack (fun k => po ≤ s.opens k) hi, hi)

/-- One time span for each value, in order and without overlap. -/
structure Shaped : Prop where
  openLength : s.openMs.length = s.values.length
  closeLength : s.closeMs.length = s.values.length
  spans : ∀ k < s.values.length, s.opens k < s.closes k
  follows : ∀ k, k + 1 < s.values.length → s.closes k ≤ s.opens (k + 1)

def ClosedBy (pc : Int) (k : Nat) : Prop := k < s.confirmed ∧ s.closes k ≤ pc

def Overlaps (po pc : Int) (k : Nat) : Prop := k < s.values.length ∧ po < s.closes k ∧ s.opens k < pc

end

end SharedSeries

structure SecState where
  lastCloseMs : Int
  primed : Bool
  deriving DecidableEq, Repr

structure ParentBar where
  openMs : Int
  closeMs : Int
  realtime : Bool
  deriving DecidableEq, Repr

/-- What is written, with the close of the element it is of; nothing stands for na. -/
def security (series : Option (SharedSeries α)) (bar : ParentBar) (gaps look dev : Bool) (st : SecState) :
    Option (α × Int) × SecState :=
  let hit := series.bind fun s => (s.align bar.openMs bar.closeMs look bar.realtime dev).bind fun k =>
    s.values[k.idx]?.map fun v => (v, s.closes k.idx, k.confirmed)
  match hit with
  | none => (none, st)
  | some (v, close, conf) =>
    if gaps then
      if (conf ∨ bar.realtime ∧ look = false ∧ close ≤ bar.closeMs) ∧ (st.primed = false ∨ st.lastCloseMs < close) then
        (some (v, close), ⟨close, true⟩)
      else (none, st)
    else (some (v, close), st)

/-- The bars of a script with gaps on and lookahead off. -/
def securityRun (dev : Bool) : SecState → List (Option (SharedSeries α) × ParentBar) → List (Option (α × Int))
  | _, [] => []
  | st, (series, bar) :: rest =>
    let out := security series bar true false dev st
    out.1 :: securityRun dev out.2 rest

section

variable {p : Nat → Prop} [DecidablePred p]

theorem stepBack_stop (at_ : stepBack p n = k + 1) : ¬ p k := by
  induction n with
  | zero => cases at_
  | succ n ih =>
    rw [stepBack] at at_
    split at at_
    · exact ih at_
    · cases at_
      assumption

theorem lt_stepBack (upper : ∀ j k, j < k → k < n → p j → p k) (k : Nat) : k < stepBack p n ↔ k < n ∧ ¬ p k := by
  induction n with
  | zero => simp [stepBack]
  | succ n ih =>
    have cut := ih fun j k lt inside => upper j k lt (by omega)
    rw [stepBack, Nat.lt_succ_iff_lt_or_eq]
    rcases lt_trichotomy k n with low | rfl | high
    · have := upper k n low (by omega)
      split <;> grind
    · split <;> grind
    · split <;> grind

end

namespace SharedSeries

variable {s s' : SharedSeries α}

theorem align_confirmed {rt dev : Bool} {a : Aligned} (aligned : s.align po pc false rt dev = some a)
    (confirmed : a.confirmed = true) : s.closes a.idx ≤ pc := by
  unfold align at aligned
  simp only [Bool.false_eq_true, if_false] at aligned
  split_ifs at aligned
  · cases aligned
    cases confirmed
  split at aligned
  · cases aligned
  rename_i at_
  cases aligned
  exact not_lt.mp (stepBack_stop at_)

section

variable (shaped : s.Shaped)

include shaped

theorem Shaped.before {j : Nat} (lt : j < k) (inside : k < s.values.length) : s.closes j ≤ s.opens k := by
  induction k, lt using Nat.le_induction with
  | base => exact shaped.follows j inside
  | succ k lt ih =>
    have := shaped.spans k (by omega)
    have := shaped.follows k inside
    have := ih (by omega)
    omega

theorem Shaped.rises {j : Nat} (lt : j < k) (inside : k < s.values.length) :
    s.opens j < s.opens k ∧ s.closes j < s.closes k := by
  have := shaped.before lt inside
  have := shaped.spans j (by omega)
  have := shaped.spans k inside
  omega

theorem Shaped.lt_closes (le : n ≤ s.values.length) (pc : Int) (k : Nat) :
    k < stepBack (fun k => pc < s.closes k) n ↔ k < n ∧ s.closes k ≤ pc := by
  rw [lt_stepBack, not_lt]
  intro j k lt inside late
  exact late.trans (shaped.rises lt (by omega)).2

theorem Shaped.lt_opens (le : n ≤ s.values.length) (pc : Int) (k : Nat) :
    k < stepBack (fun k => pc ≤ s.opens k) n ↔ k < n ∧ s.opens k < pc := by
  rw [lt_stepBack, not_le]
  intro j k lt inside late
  exact late.trans (shaped.rises lt (by omega)).1.le

theorem Shaped.align_off (po pc : Int) (dev : Bool) (a : Aligned) : s.align po pc false false dev = some a ↔
    a.confirmed = true ∧ s.ClosedBy pc a.idx ∧ ∀ j, s.ClosedBy pc j → j ≤ a.idx := by
  obtain ⟨idx, confirmed⟩ := a
  have le : s.confirmed ≤ s.values.length := by
    unfold SharedSeries.confirmed
    split <;> omega
  have closed := shaped.lt_closes le pc
  unfold align ClosedBy
  simp only [← closed]
  by_cases empty : s.values.length = 0
  · have := closed idx
    simp only [empty, true_or, if_true, reduceCtorEq, false_iff]
    omega
  simp only [shaped.openLength, shaped.closeLength, empty, ne_eq, not_true, or_self, if_false, false_and,
    Bool.false_eq_true]
  cases stepBack (fun k => pc < s.closes k) s.confirmed with
  | zero => simp
  | succ k =>
    simp only [Option.some.injEq, Aligned.mk.injEq]
    constructor
    · rintro ⟨rfl, rfl⟩
      exact ⟨rfl, by omega, fun j lt => by omega⟩
    · rintro ⟨rfl, lt, last⟩
      have := last k (by omega)
      exact ⟨by omega, rfl⟩

theorem Shaped.overlap_eq (le : n ≤ s.values.length) (hit : Option Nat) :
    s.overlap po pc n hit = if stepBack (fun k => po < s.closes k) n < n ∧
      s.opens (stepBack (fun k => po < s.closes k) n) < pc then some (stepBack (fun k => po < s.closes k) n) else hit := by
  induction n generalizing hit with
  | zero => rfl
  | succ n ih =>
    have atMost := shaped.lt_closes (show n ≤ _ by omega) po
    rw [overlap, stepBack]
    by_cases past : s.closes n ≤ po
    · simp [past, not_lt.mpr past]
    simp only [past, not_le.mp past, if_true, if_false]
    rw [ih (by omega)]
    generalize stepBack (fun k => po < s.closes k) n = start at atMost
    have := atMost n
    rcases Nat.lt_or_eq_of_le (show start ≤ n by omega) with low | rfl
    · have := shaped.rises low le
      split_ifs <;> first | rfl | omega
    · simp

theorem Shaped.align_on (po pc : Int) (rt dev : Bool) (k : Nat) :
    (s.align po pc true rt dev).map Aligned.idx = some k ↔ s.Overlaps po pc k ∧ ∀ j < k, ¬ s.Overlaps po pc j := by
  have from_ := shaped.lt_closes le_rfl po
  unfold align Overlaps
  by_cases empty : s.values.length = 0
  · simp [empty]
  simp only [shaped.openLength, shaped.closeLength, empty, ne_eq, not_true, or_self, if_false, if_true,
    shaped.overlap_eq le_rfl, Option.map_map, Function.comp_def, Option.map_id']
  generalize stepBack (fun k => po < s.closes k) s.values.length = start at from_
  have := from_ start
  constructor
  · intro found
    split_ifs at found with hit
    cases found
    exact ⟨by omega, fun j lt => by have := from_ j; omega⟩
  · rintro ⟨overlaps, first⟩
    have := from_ k
    rcases Nat.lt_or_eq_of_le (show start ≤ k by omega) with low | rfl
    · have := shaped.rises low overlaps.1
      have := first start low
      omega
    · rw [if_pos (by omega)]

theorem Shaped.intrabars_iff (po pc : Int) (k : Nat) : (s.intrabars po pc).1 ≤ k ∧ k < (s.intrabars po pc).2 ↔
    k < s.values.length ∧ po ≤ s.opens k ∧ s.opens k < pc := by
  have high := shaped.lt_opens le_rfl pc
  unfold intrabars
  by_cases empty : s.values.length = 0
  · simp [empty]
  simp only [shaped.openLength, empty, ne_eq, not_true, or_self, if_false]
  generalize stepBack (fun k => pc ≤ s.opens k) s.values.length = hi at high
  have low := shaped.lt_opens (show hi ≤ _ by have := high s.values.length; omega) po k
  have := high k
  omega

end

end SharedSeries

theorem security_gaps (series : Option (SharedSeries α)) (bar : ParentBar) (dev : Bool) (st : SecState) :
    security series bar true false dev st = (none, st) ∨ ∃ v close,
      security series bar true false dev st = (some (v, close), ⟨close, true⟩) ∧ close ≤ bar.closeMs ∧
        (st.primed = true → st.lastCloseMs < close) := by
  unfold security
  dsimp only
  split
  · exact .inl rfl
  rename_i v close conf hit
  obtain ⟨s, _, hit⟩ := Option.bind_eq_some_iff.mp hit
  obtain ⟨a, aligned, hit⟩ := Option.bind_eq_some_iff.mp hit
  obtain ⟨w, _, same⟩ := Option.map_eq_some_iff.mp hit
  cases same
  rw [if_pos rfl]
  split
  · rename_i due
    refine .inr ⟨v, _, rfl, due.1.elim (SharedSeries.align_confirmed aligned) fun due => due.2.2, fun primed => ?_⟩
    exact due.2.resolve_left (by simp [primed])
  · exact .inl rfl

theorem securityRun_rises (dev : Bool) (bars : List (Option (SharedSeries α) × ParentBar)) (st : SecState) :
    (((securityRun dev st bars).filterMap id).map Prod.snd).Pairwise (· < ·) ∧
    (st.primed = true → ∀ e ∈ (securityRun dev st bars).filterMap id, st.lastCloseMs < e.2) ∧
    Forall₂ (fun bar out => ∀ e ∈ out, e.2 ≤ bar.2.closeMs) bars (securityRun dev st bars) := by
  induction bars generalizing st with
  | nil => simp [securityRun]
  | cons at_ rest ih =>
    obtain ⟨series, bar⟩ := at_
    rw [securityRun]
    rcases security_gaps series bar dev st with quiet | ⟨v, close, emitted, within, newer⟩
    · obtain ⟨rises, above, inBar⟩ := ih st
      simp only [quiet]
      exact ⟨rises, above, .cons (by simp) inBar⟩
    · obtain ⟨rises, above, inBar⟩ := ih ⟨close, true⟩
      simp only [emitted]
      refine ⟨pairwise_cons.mpr ⟨?_, rises⟩, ?_, .cons (by simpa) inBar⟩
      · rintro _ later
        obtain ⟨e, member, rfl⟩ := mem_map.mp later
        exact above rfl e member
      · intro primed e member
        rcases mem_cons.mp member with rfl | later
        · exact newer primed
        · exact (newer primed).trans (above rfl e later)

/-- A historical bar reads the last confirmed element that closes by its close, so nothing that closes later; with
lookahead the first element that overlaps it; and its intrabars are those that open in it. Over every run the closes
emitted with gaps rise, each by the close of its bar. -/
theorem higher_timeframe_aligned {s : SharedSeries α} (shaped : s.Shaped) (po pc : Int) (dev : Bool) :
    (∀ a, s.align po pc false false dev = some a ↔
      a.confirmed = true ∧ s.ClosedBy pc a.idx ∧ ∀ j, s.ClosedBy pc j → j ≤ a.idx) ∧
    (∀ s' : SharedSeries α, s'.Shaped → (∀ k, s'.ClosedBy pc k ↔ s.ClosedBy pc k) →
      s'.align po pc false false dev = s.align po pc false false dev) ∧
    (∀ rt k, (s.align po pc true rt dev).map Aligned.idx = some k ↔
      s.Overlaps po pc k ∧ ∀ j < k, ¬ s.Overlaps po pc j) ∧
    (∀ k, (s.intrabars po pc).1 ≤ k ∧ k < (s.intrabars po pc).2 ↔
      k < s.values.length ∧ po ≤ s.opens k ∧ s.opens k < pc) ∧
    ∀ bars : List (Option (SharedSeries α) × ParentBar),
      (((securityRun dev ⟨0, false⟩ bars).filterMap id).map Prod.snd).Pairwise (· < ·) ∧
      Forall₂ (fun bar out => ∀ e ∈ out, e.2 ≤ bar.2.closeMs) bars (securityRun dev ⟨0, false⟩ bars) := by
  refine ⟨shaped.align_off po pc dev, fun s' shaped' same => ?_, fun rt => shaped.align_on po pc rt dev,
    shaped.intrabars_iff po pc, fun bars => ?_⟩
  · ext a
    simp only [shaped'.align_off, shaped.align_off, same]
  · obtain ⟨rises, _, within⟩ := securityRun_rises dev bars ⟨0, false⟩
    exact ⟨rises, within⟩

/-- The bar closes with the first element, and the second is developing. -/
theorem closed_element_aligned :
    SharedSeries.align ⟨[7, 8], [0, 60], [60, 120], false⟩ 30 60 false false true = some ⟨0, true⟩ := by
  have shaped : SharedSeries.Shaped (⟨[7, 8], [0, 60], [60, 120], false⟩ : SharedSeries Nat) :=
    ⟨rfl, rfl, by decide, by simp [SharedSeries.closes, SharedSeries.opens]⟩
  refine ((higher_timeframe_aligned shaped 30 60 true).1 ⟨0, true⟩).mpr ⟨rfl, ⟨by decide, by decide⟩, fun j closed => ?_⟩
  exact Nat.le_of_lt_succ closed.1

end TradingEngine.Pine
