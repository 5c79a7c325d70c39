import TradingEngine.Base.Scan

/-!
# The efficiency ratio

The net move over a window of minutes against the length of the path in five-minute steps.
-/

namespace TradingEngine.Regime

open Base

def regimeRingMin : Nat := 1536

def regimeWindowMinMin : Nat := 5

def regimeWindowMaxMin : Nat := regimeRingMin - 1

def maxBackMin : Nat := 5

def dimErStepMin : Nat := 5

def scale1e9 : Int := 1000000000

def ringIdx (minute : Int) : Nat := (minute % regimeRingMin).toNat

def closeAt (ring : Nat → Int) (m : Int) : Int :=
  match firstBelow (fun k => decide (0 < ring (ringIdx (i64Wrap (m - k))))) (maxBackMin + 1) with
  | some k => ring (ringIdx (i64Wrap (m - k)))
  | none => 0

/-- One step of the loop over the path: its length so far, and the steps present. -/
def erStep (ring : Nat → Int) (m : Int) (j : Nat) (acc : Int × Nat) : Int × Nat :=
  let a := closeAt ring (i64Wrap (m - 5 * j))
  let b := closeAt ring (i64Wrap (m - 5 * j - 5))
  if 0 < a ∧ 0 < b then (acc.1 + |a - b|, acc.2 + 1) else acc

def erPath (ring : Nat → Int) (m : Int) (steps : Nat) : Int × Nat := loop (erStep ring m) steps (0, 0)

def erOver (ring : Nat → Int) (m : Int) (w : Nat) : Option Int :=
  let steps := w / dimErStepMin
  if steps = 0 then none
  else
    let path := erPath ring m steps
    if path.2 * 5 < steps * 4 then none
    else
      let first := closeAt ring (i64Wrap (m - w))
      let last := closeAt ring m
      if first ≤ 0 ∨ last ≤ 0 then none
      else if path.1 = 0 then some 0
      else some (i64Wrap (|last - first| * scale1e9 / path.1))

/-- What `validate` lets through as the window of the ratio. -/
def ValidWindow (w : Nat) : Prop := regimeWindowMinMin ≤ w ∧ w ≤ regimeWindowMaxMin ∧ w % dimErStepMin = 0

def netMove (ring : Nat → Int) (m : Int) (w : Nat) : Int := |closeAt ring m - closeAt ring (i64Wrap (m - w))|

/-- At most one, and zero only for a net move that is zero or rounds to it. -/
def ErBounded (ring : Nat → Int) (m : Int) (w : Nat) : Prop :=
  ∀ v, erOver ring m w = some v →
    0 ≤ v ∧ v ≤ scale1e9 ∧
      (v = 0 → netMove ring m w = 0 ∨ netMove ring m w * scale1e9 < (erPath ring m (w / dimErStepMin)).1)

def sample (ring : Nat → Int) (m : Int) (j : Nat) : Int := closeAt ring (i64Wrap (m - 5 * j))

def Judged (ring : Nat → Int) (m : Int) (w : Nat) : Prop :=
  (w / dimErStepMin) * 4 ≤ (erPath ring m (w / dimErStepMin)).2 * 5 ∧
    0 < closeAt ring (i64Wrap (m - w)) ∧ 0 < closeAt ring m

def NoneMissing (ring : Nat → Int) (m : Int) (w : Nat) : Prop := ∀ j ≤ w / dimErStepMin, 0 < sample ring m j

def SameHoles (ring ring' : Nat → Int) : Prop := ∀ i, 0 < ring i ↔ 0 < ring' i

/-- The oldest sample of the longest window may be looked for past the end of the ring, in its newest minutes. -/
def ComesRound (ring : Nat → Int) (m : Int) (w : Nat) : Prop := w = regimeWindowMaxMin ∧ ring (ringIdx (m - w)) ≤ 0

variable {ring ring' : Nat → Int} {m : Int} {w : Nat}

theorem erStep_eq (j : Nat) (acc : Int × Nat) : erStep ring m j acc =
    if 0 < sample ring m j ∧ 0 < sample ring m (j + 1) then (acc.1 + |sample ring m j - sample ring m (j + 1)|, acc.2 + 1)
    else acc := by
  have next : m - 5 * (j : Int) - 5 = m - 5 * ((j + 1 : Nat) : Int) := by push_cast; ring
  rw [erStep, next]
  rfl

theorem path_succ (n : Nat) : erPath ring m (n + 1) = erStep ring m n (erPath ring m n) := rfl

theorem path_nonneg (n : Nat) : 0 ≤ (erPath ring m n).1 := by
  induction n with
  | zero => exact le_rfl
  | succ n ih =>
    rw [path_succ, erStep_eq]
    split
    · exact add_nonneg ih (abs_nonneg _)
    · exact ih

theorem move_le_path {n : Nat} (present : ∀ j ≤ n, 0 < sample ring m j) :
    |sample ring m 0 - sample ring m n| ≤ (erPath ring m n).1 := by
  induction n with
  | zero => simp [erPath, loop]
  | succ n ih =>
    rw [path_succ, erStep_eq, if_pos ⟨present n (by omega), present (n + 1) le_rfl⟩]
    have before := ih fun j le => present j (by omega)
    have split := abs_sub_le (sample ring m 0) (sample ring m n) (sample ring m (n + 1))
    exact split.trans (Int.add_le_add_right before _)

theorem sample_first (ring : Nat → Int) (m : Int) (valid : ValidWindow w) : sample ring m (w / dimErStepMin) = closeAt ring (i64Wrap (m - w)) := by
  have whole : 5 * ((w / dimErStepMin : Nat) : Int) = w := by
    have := valid.2.2
    unfold dimErStepMin at *
    omega
  rw [sample, whole]

theorem bounded_of_le (le : netMove ring m w ≤ (erPath ring m (w / dimErStepMin)).1) : ErBounded ring m w := by
  intro v ran
  have nonneg : 0 ≤ netMove ring m w := abs_nonneg _
  unfold erOver at ran
  dsimp only at ran
  split at ran; · cases ran
  split at ran; · cases ran
  split at ran; · cases ran
  split at ran
  · rename_i flat
    cases ran
    exact ⟨le_rfl, by decide, fun _ => .inl (by omega)⟩
  rename_i moved
  have positive : 0 < (erPath ring m (w / dimErStepMin)).1 := lt_of_le_of_ne (path_nonneg _) (Ne.symm moved)
  change some (i64Wrap (netMove ring m w * scale1e9 / _)) = _ at ran
  generalize (erPath ring m (w / dimErStepMin)).1 = path at *
  generalize netMove ring m w = net at *
  have low : 0 ≤ net * scale1e9 / path := Int.ediv_nonneg (mul_nonneg nonneg (by decide)) positive.le
  have high : net * scale1e9 / path ≤ scale1e9 := by
    refine Int.ediv_le_of_le_mul positive ?_
    rw [mul_comm scale1e9]
    exact Int.mul_le_mul_of_nonneg_right le (by decide)
  have fits : InI64 (net * scale1e9 / path) := by
    unfold InI64 i64Min i64Max scale1e9 at *
    omega
  rw [wrap_of_inI64 fits] at ran
  cases ran
  refine ⟨low, high, fun zero => .inr ?_⟩
  have below := Int.lt_ediv_add_one_mul_self (net * scale1e9) positive
  rwa [zero, zero_add, one_mul] at below

theorem closeAt_found {x : Int} {k : Nat} (near : k ≤ maxBackMin) (here : 0 < ring (ringIdx (i64Wrap (x - k))))
    (holes : ∀ j < k, ring (ringIdx (i64Wrap (x - j))) ≤ 0) : closeAt ring x = ring (ringIdx (i64Wrap (x - k))) := by
  unfold closeAt
  split
  · rename_i k' found
    obtain ⟨_, hit, before⟩ := firstBelow_some found
    rcases Nat.lt_trichotomy k k' with less | rfl | more
    · have := before k less
      simp at this
      omega
    · rfl
    · have := holes k' more
      simp at hit
      omega
  · rename_i missed
    have := firstBelow_none missed k (by omega)
    simp at this
    omega

theorem closeAt_cases (ring : Nat → Int) (x : Int) :
    (closeAt ring x = 0 ∧ ∀ k ≤ maxBackMin, ring (ringIdx (i64Wrap (x - k))) ≤ 0) ∨
    ∃ k ≤ maxBackMin, 0 < ring (ringIdx (i64Wrap (x - k))) ∧ ∀ j < k, ring (ringIdx (i64Wrap (x - j))) ≤ 0 := by
  cases found : firstBelow (fun k => decide (0 < ring (ringIdx (i64Wrap (x - k))))) (maxBackMin + 1) with
  | none =>
    refine .inl ⟨by rw [closeAt, found], fun k le => ?_⟩
    simpa using firstBelow_none found k (by omega)
  | some k =>
    obtain ⟨lt, hit, before⟩ := firstBelow_some found
    exact .inr ⟨k, by omega, by simpa using hit, fun j less => by simpa using before j less⟩

theorem SameHoles.sample_pos (same : SameHoles ring ring') (x : Int) : 0 < closeAt ring x ↔ 0 < closeAt ring' x := by
  have hole : ∀ {i}, ring i ≤ 0 → ring' i ≤ 0 := fun {i} le => not_lt.mp fun pos => not_lt.mpr le ((same i).mpr pos)
  rcases closeAt_cases ring x with ⟨none, holes⟩ | ⟨k, le, here, holes⟩
  · rcases closeAt_cases ring' x with ⟨none', _⟩ | ⟨k, le, here, _⟩
    · rw [none, none']
    · exact absurd here (not_lt.mpr (hole (holes k le)))
  · have here' := (same _).mp here
    rw [closeAt_found le here holes, closeAt_found le here' fun j less => hole (holes j less)]
    exact ⟨fun _ => here', fun _ => here⟩

theorem SameHoles.present (same : SameHoles ring ring') (n : Nat) : (erPath ring m n).2 = (erPath ring' m n).2 := by
  induction n with
  | zero => rfl
  | succ n ih =>
    have both : (0 < sample ring m n ∧ 0 < sample ring m (n + 1)) ↔ (0 < sample ring' m n ∧ 0 < sample ring' m (n + 1)) :=
      and_congr (same.sample_pos _) (same.sample_pos _)
    rw [path_succ, path_succ, erStep_eq, erStep_eq]
    by_cases here : 0 < sample ring m n ∧ 0 < sample ring m (n + 1)
    · rw [if_pos here, if_pos (both.mp here)]
      dsimp only
      rw [ih]
    · rw [if_neg here, if_neg (mt both.mpr here)]
      exact ih

def jump (ring : Nat → Int) (m : Int) (edge : Nat) (i : Nat) : Int :=
  if 0 < ring i then (if (m - i) % regimeRingMin < edge then 2 else 1) else ring i

theorem jump_sameHoles (ring : Nat → Int) (m : Int) (edge : Nat) : SameHoles ring (jump ring m edge) := by
  intro i
  unfold jump
  by_cases here : 0 < ring i
  · simp only [here, if_true, true_iff]
    split <;> decide
  · simp only [here, if_false]

def Inside (m : Int) : Prop := i64Min + 1540 ≤ m ∧ m ≤ i64Max

theorem wrap_inside (inside : Inside m) {o : Nat} (le : o ≤ 1540) : i64Wrap (m - o) = m - o := by
  refine wrap_of_inI64 ?_
  unfold Inside InI64 i64Min i64Max at *
  omega

theorem jump_at {edge o : Nat} (small : o < regimeRingMin) (here : 0 < ring (ringIdx (m - o))) :
    jump ring m edge (ringIdx (m - o)) = if o < edge then 2 else 1 := by
  have place : (m - (ringIdx (m - o) : Nat)) % regimeRingMin = o := by
    unfold ringIdx regimeRingMin at *
    omega
  rw [jump, if_pos here, place]
  simp only [Nat.cast_lt]

theorem jump_sample (inside : Inside m) {j : Nat} (edge : Nat) (few : 5 * j ≤ regimeWindowMaxMin)
    (there : 0 < sample ring m j) (first : 5 * j + maxBackMin < regimeRingMin ∨ 0 < ring (ringIdx (m - (5 * j : Nat)))) :
    ∃ k ≤ maxBackMin, 5 * j + k < regimeRingMin ∧ 0 < ring (ringIdx (m - (5 * j + k : Nat))) ∧
      sample (jump ring m edge) m j = if 5 * j + k < edge then 2 else 1 := by
  have reads : ∀ k ≤ maxBackMin, i64Wrap (i64Wrap (m - 5 * j) - k) = m - (5 * j + k : Nat) := by
    intro k le
    unfold regimeWindowMaxMin regimeRingMin maxBackMin at *
    have whole := wrap_inside inside (o := 5 * j) (by omega)
    push_cast at whole
    rw [whole, ← wrap_inside inside (o := 5 * j + k) (by omega)]
    push_cast
    ring_nf
  rcases closeAt_cases ring (i64Wrap (m - 5 * j)) with ⟨none, _⟩ | ⟨k, le, here, holes⟩
  · rw [sample, none] at there
    exact absurd there (lt_irrefl _)
  have inRing : 5 * j + k < regimeRingMin := by
    rcases first with far | now
    · omega
    rcases Nat.eq_zero_or_pos k with rfl | pos
    · unfold regimeWindowMaxMin regimeRingMin at *
      omega
    · have hole := holes 0 pos
      rw [reads 0 (by omega), Nat.add_zero] at hole
      omega
  rw [reads k le] at here
  refine ⟨k, le, inRing, here, ?_⟩
  have same := jump_sameHoles ring m edge
  rw [sample, closeAt_found le (by rw [reads k le]; exact (same _).mp here)
    fun i less => not_lt.mp fun pos => not_lt.mpr (holes i less) ((same _).mpr pos), reads k le, jump_at inRing here]

theorem round_trip (inside : Inside m) (longest : w = regimeWindowMaxMin) (hole : ring (ringIdx (m - w)) ≤ 0)
    (there : 0 < closeAt ring (i64Wrap (m - w))) : closeAt ring (i64Wrap (m - w)) = closeAt ring m := by
  have word : i64Wrap (m - w) = m - w := wrap_inside inside (by rw [longest]; decide)
  have reads : ∀ k < maxBackMin, ringIdx (i64Wrap (i64Wrap (m - w) - (k + 1 : Nat))) = ringIdx (i64Wrap (m - k)) := by
    intro k lt
    unfold maxBackMin at lt
    have far := wrap_inside inside (o := w + (k + 1)) (by rw [longest, regimeWindowMaxMin, regimeRingMin]; omega)
    have near := wrap_inside inside (o := k) (by omega)
    rw [word, near, show m - (w : Int) - (k + 1 : Nat) = m - (w + (k + 1) : Nat) by push_cast; ring, far, longest]
    unfold ringIdx regimeWindowMaxMin regimeRingMin
    omega
  rcases closeAt_cases ring (i64Wrap (m - w)) with ⟨none, _⟩ | ⟨k, le, here, holes⟩
  · rw [none] at there
    exact absurd there (lt_irrefl _)
  cases k with
  | zero =>
    rw [Nat.cast_zero, sub_zero, word, word] at here
    exact absurd here (not_lt.mpr hole)
  | succ k =>
    rw [closeAt_found le here holes, reads k le]
    rw [reads k le] at here
    refine (closeAt_found (Nat.le_of_succ_le le) here fun j less => ?_).symm
    rw [← reads j (by omega)]
    exact holes (j + 1) (by omega)

theorem jump_unbounded (inside : Inside m) (valid : ValidWindow w) (judged : Judged ring m w) (alone : ¬ ComesRound ring m w)
    {gap : Nat} (within : gap ≤ w / dimErStepMin) (missing : sample ring m gap ≤ 0) :
    ¬ ErBounded (jump ring m (5 * gap)) m w := by
  obtain ⟨enough, older, newer⟩ := judged
  obtain ⟨_, most, whole⟩ := valid
  have span : 5 * (w / dimErStepMin) = w := by unfold dimErStepMin at *; omega
  have oldest := sample_first ring m ⟨‹_›, most, whole⟩
  have oldest' := sample_first (jump ring m (5 * gap)) m ⟨‹_›, most, whole⟩
  have gapHole : ring (ringIdx (m - (5 * gap : Nat))) ≤ 0 := by
    rcases closeAt_cases ring (i64Wrap (m - 5 * gap)) with ⟨_, holes⟩ | ⟨k, le, here, holes⟩
    · have hole := holes 0 (by decide)
      have small : 5 * gap ≤ 1540 := by unfold regimeWindowMaxMin regimeRingMin at most; omega
      have read := wrap_inside inside small
      push_cast at read
      rw [Nat.cast_zero, sub_zero, read] at hole
      push_cast
      rwa [read] at hole
    · rw [sample, closeAt_found le here holes] at missing
      omega
  have value : ∀ j ≤ w / dimErStepMin, 0 < sample ring m j →
      sample (jump ring m (5 * gap)) m j = if j < gap then 2 else 1 := by
    intro j le there
    have few : 5 * j ≤ regimeWindowMaxMin := by omega
    obtain ⟨k, back, _, here, found⟩ := jump_sample inside (5 * gap) few there (by
      rcases Nat.lt_or_ge (5 * j + maxBackMin) regimeRingMin with near | far
      · exact .inl near
      refine .inr (not_le.mp fun hole => alone ?_)
      have last : 5 * j = w := by unfold regimeWindowMaxMin regimeRingMin maxBackMin at *; omega
      refine ⟨by unfold regimeWindowMaxMin regimeRingMin maxBackMin at *; omega, ?_⟩
      rwa [last] at hole)
    rw [found]
    congr 1
    -- A sample on the newer side is not found on the older one: the minute between them is the missing sample's.
    refine propext ⟨fun less => by omega, fun less => ?_⟩
    by_contra past
    have edge : 5 * j + k = 5 * gap := by unfold maxBackMin at back; omega
    rw [edge] at here
    omega
  have flat : ∀ n ≤ w / dimErStepMin, (erPath (jump ring m (5 * gap)) m n).1 = 0 := by
    intro n
    induction n with
    | zero => exact fun _ => rfl
    | succ n ih =>
      intro le
      rw [path_succ, erStep_eq]
      split
      · rename_i both
        have same := jump_sameHoles ring m (5 * gap)
        have here := (same.sample_pos _).mpr both.1
        have next := (same.sample_pos _).mpr both.2
        rw [value n (by omega) here, value (n + 1) le next]
        have sides : (n < gap) = (n + 1 < gap) := by
          refine propext ⟨fun less => ?_, fun less => by omega⟩
          rcases Nat.lt_or_ge (n + 1) gap with inside | past
          · exact inside
          · obtain rfl : gap = n + 1 := by omega
            exact absurd next (not_lt.mpr missing)
        simp only [sides, sub_self, abs_zero, add_zero]
        exact ih (by omega)
      · exact ih (by omega)
  have newest : 0 < sample ring m 0 := by
    have word : i64Wrap m = m := by simpa using wrap_inside inside (o := 0) (by decide)
    simpa [sample, word] using newer
  have front : 0 < gap := by
    rcases Nat.eq_zero_or_pos gap with rfl | pos
    · omega
    · exact pos
  have back : gap < w / dimErStepMin := by
    refine lt_of_le_of_ne within fun same => ?_
    rw [same, oldest] at missing
    omega
  have last : closeAt (jump ring m (5 * gap)) m = 2 := by
    have word : i64Wrap m = m := by simpa using wrap_inside inside (o := 0) (by decide)
    have found := value 0 (by omega) newest
    rw [if_pos front] at found
    simpa [sample, word] using found
  have first : closeAt (jump ring m (5 * gap)) (i64Wrap (m - w)) = 1 := by
    have found := value (w / dimErStepMin) le_rfl (oldest ▸ older)
    rwa [if_neg (by omega), oldest'] at found
  intro bounded
  have ran : erOver (jump ring m (5 * gap)) m w = some 0 := by
    have guard := (jump_sameHoles ring m (5 * gap)).present (m := m) (w / dimErStepMin)
    unfold erOver
    dsimp only
    rw [if_neg (by omega), if_neg (by rw [← guard]; omega), if_neg (by rw [first, last]; decide), if_pos (flat _ le_rfl)]
  obtain ⟨_, _, zero⟩ := bounded 0 ran
  have net : netMove (jump ring m (5 * gap)) m w = 1 := by rw [netMove, first, last]; decide
  rw [net, flat _ le_rfl] at zero
  exact absurd (zero rfl) (by decide)

/-- The ratio stays in its range for every minute at which no sample of the window is missing. And for each pattern
of holes: it stays there whatever the closes are just if, where the ratio is judged at all, no sample is missing or
the oldest one is found in the newest minutes. -/
theorem er_bounded_iff (ring : Nat → Int) (words : ∀ i, InI64 (ring i)) (m : Int) (w : Nat) (valid : ValidWindow w) :
    (NoneMissing ring m w → InI64 m → ErBounded ring m w) ∧
    (Inside m → ((∀ ring', (∀ i, InI64 (ring' i)) → SameHoles ring ring' → ErBounded ring' m w) ↔
      (Judged ring m w → NoneMissing ring m w ∨ ComesRound ring m w))) := by
  have ends : ∀ {ring : Nat → Int}, InI64 m → netMove ring m w = |sample ring m 0 - sample ring m (w / dimErStepMin)| := by
    intro ring word
    rw [sample_first _ _ valid, netMove, sample, Nat.cast_zero, mul_zero, sub_zero, wrap_of_inI64 word]
  have full : ∀ {ring : Nat → Int}, NoneMissing ring m w → InI64 m → ErBounded ring m w := by
    intro ring present word
    refine bounded_of_le ?_
    rw [ends word]
    exact move_le_path present
  refine ⟨full, fun inside => ⟨fun bounded judged => ?_, fun covered ring' _ same => ?_⟩⟩
  · by_contra neither
    obtain ⟨missed, alone⟩ := not_or.mp neither
    unfold NoneMissing at missed
    push Not at missed
    obtain ⟨gap, within, missing⟩ := missed
    refine jump_unbounded inside valid judged alone within missing (bounded _ (fun i => ?_) (jump_sameHoles ring m _))
    unfold jump
    split
    · split <;> decide
    · exact words i
  · have word : InI64 m := by unfold Inside InI64 i64Min i64Max at *; omega
    by_cases judged : Judged ring m w
    · rcases covered judged with present | ⟨longest, hole⟩
      · exact full (fun j le => (same.sample_pos _).mp (present j le)) word
      refine bounded_of_le ?_
      have older := (same.sample_pos _).mp judged.2.1
      have hole' : ring' (ringIdx (m - w)) ≤ 0 := not_lt.mp fun pos => not_lt.mpr hole ((same _).mpr pos)
      rw [netMove, round_trip inside longest hole' older, sub_self, abs_zero]
      exact path_nonneg _
    · intro v ran
      exfalso
      apply judged
      unfold erOver at ran
      dsimp only at ran
      split at ran; · cases ran
      split at ran; · cases ran
      split at ran; · cases ran
      rename_i enough ends
      push Not at ends
      refine ⟨?_, (same.sample_pos _).mpr ends.1, (same.sample_pos _).mpr ends.2⟩
      rw [same.present]
      omega

theorem er_bounded_flat : ErBounded (fun _ => 7) 0 5 :=
  (er_bounded_iff (fun _ => 7) (fun _ => by decide) 0 5 (by unfold ValidWindow; decide)).1 (by unfold NoneMissing; decide)
    (by decide)

/-- One missing sample in twelve steps, a jump inside the hole and a path of length one: the ratio is 101. -/
theorem er_past_one :
    let ring : Nat → Int := fun i => if i = 100 then 201 else if 70 < i ∧ i < 100 then 200 else if 34 < i ∧ i < 65 then 100 else 0
    ValidWindow 60 ∧ erOver ring 100 60 = some 101000000000 ∧ ¬ ErBounded ring 100 60 := by
  intro ring
  have ran : erOver ring 100 60 = some 101000000000 := by decide
  refine ⟨by unfold ValidWindow; decide, ran, fun bounded => ?_⟩
  obtain ⟨_, high, _⟩ := bounded _ ran
  exact absurd high (by decide)

end TradingEngine.Regime
