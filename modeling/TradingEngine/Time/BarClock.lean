import TradingEngine.Base.Grid
import TradingEngine.Base.Saturating

/-!
# The bar calendar

Bars of a fixed length, weeks from a Monday and calendar months, in UTC milliseconds.
-/

namespace TradingEngine.Time

open Base

def weekAnchorMs : Int := 345600000

def tfMonthS : Nat := 2629746

def allowedTfS : List Nat :=
  [60, 180, 300, 900, 1800, 3600, 7200, 14400, 21600, 43200, 86400, 604800, tfMonthS]

def dayMs : Int := 86400000

def weekMs : Int := 604800000

def weekS : Nat := 604800

def tAbsMaxMs : Int := 2 ^ 62

def daysFromCivil (y m d : Int) : Int :=
  let y := if m ≤ 2 then y - 1 else y
  let era := y / 400
  let yoe := y - era * 400
  let mp := (m + 9) % 12
  let doy := (153 * mp + 2) / 5 + d - 1
  let doe := yoe * 365 + yoe / 4 - yoe / 100 + doy
  era * 146097 + doe - 719468

def civilFromDays (z : Int) : Int × Int × Int :=
  let z := z + 719468
  let era := z / 146097
  let doe := z - era * 146097
  let yoe := (doe - doe / 1460 + doe / 36524 - doe / 146096) / 365
  let y := yoe + era * 400
  let doy := doe - (365 * yoe + yoe / 4 - yoe / 100)
  let mp := (5 * doy + 2) / 153
  let d := doy - (153 * mp + 2) / 5 + 1
  let m := if mp < 10 then mp + 3 else mp - 9
  (if m ≤ 2 then y + 1 else y, m, d)

def lenMs (tfS : Nat) : Int := if tfS = 0 then 1 else tfS * 1000

def openMs (tMs : Int) (tfS : Nat) : Int :=
  if tfS = tfMonthS then
    let date := civilFromDays (tMs / dayMs)
    i64Clamp (daysFromCivil date.1 date.2.1 1 * dayMs)
  else if tfS = weekS then satSub tMs (satSub tMs weekAnchorMs % weekMs)
  else satSub tMs (tMs % lenMs tfS)

def closeMs (openMs : Int) (tfS : Nat) : Int :=
  if tfS = tfMonthS then
    let date := civilFromDays (openMs / dayMs)
    i64Clamp ((if date.2.1 = 12 then daysFromCivil (date.1 + 1) 1 1 else daysFromCivil date.1 (date.2.1 + 1) 1) * dayMs)
  else if tfS = weekS then satAdd openMs weekMs
  else satAdd openMs (lenMs tfS)

def monthIndex (tMs : Int) : Int :=
  let date := civilFromDays (tMs / dayMs)
  date.1 * 12 + (date.2.1 - 1)

def barsBetween (aOpenMs bOpenMs : Int) (tfS : Nat) : Int :=
  if tfS = tfMonthS then satSub (monthIndex bOpenMs) (monthIndex aOpenMs)
  else satSub bOpenMs aOpenMs / (if tfS = weekS then weekMs else lenMs tfS)

def leap (y : Int) : Prop := y % 4 = 0 ∧ (y % 100 ≠ 0 ∨ y % 400 = 0)

instance (y : Int) : Decidable (leap y) := inferInstanceAs (Decidable (_ ∧ _))

def monthDays (y m : Int) : Int :=
  if m = 2 then (if leap y then 29 else 28) else if m = 4 ∨ m = 6 ∨ m = 9 ∨ m = 11 then 30 else 31

structure IsDate (y m d : Int) : Prop where
  month : 1 ≤ m ∧ m ≤ 12
  day : 1 ≤ d ∧ d ≤ monthDays y m

/-- The days before a year that starts in March. -/
def yearDay (y : Int) : Int := 365 * y + y / 4 - y / 100 + y / 400

def yearSum (doe : Int) : Int := doe - doe / 1460 + doe / 36524 - doe / 146096

theorem yearSum_mono {d d' : Int} (order : d ≤ d') : yearSum d ≤ yearSum d' := by
  have nested : ∀ x : Int, x / 146096 = x / 36524 / 4 := fun x => by rw [Int.ediv_ediv_of_nonneg (by decide)]; rfl
  unfold yearSum
  rw [nested, nested]
  have days : d - d / 1460 ≤ d' - d' / 1460 := by omega
  have centuries := Int.ediv_le_ediv (c := 36524) (by decide) order
  omega

theorem yearSum_table : ∀ y : Fin 400, 365 * (y : Int) ≤ yearSum (yearDay y) ∧
    yearSum (yearDay (y + 1) - 1) < 365 * ((y : Int) + 1) := by decide +kernel

theorem year_of_day {doe : Int} (nonneg : 0 ≤ doe) (small : doe < 146097) :
    0 ≤ yearSum doe / 365 ∧ yearSum doe / 365 < 400 ∧ yearDay (yearSum doe / 365) ≤ doe ∧
      doe < yearDay (yearSum doe / 365 + 1) := by
  have low : yearSum 0 ≤ yearSum doe := yearSum_mono nonneg
  have high : yearSum doe ≤ yearSum 146096 := yearSum_mono (by omega)
  have least : yearSum 0 = 0 := by decide
  have most : yearSum 146096 = 145999 := by decide
  have inside : 0 ≤ yearSum doe / 365 ∧ yearSum doe / 365 < 400 := by omega
  refine ⟨inside.1, inside.2, ?_, ?_⟩
  · by_contra before
    rcases Int.lt_or_eq_of_le inside.1 with some_year | first
    · have table := (yearSum_table ⟨(yearSum doe / 365 - 1).toNat, by omega⟩).2
      have bound := yearSum_mono (show doe ≤ yearDay (yearSum doe / 365) - 1 by omega)
      rw [Int.toNat_of_nonneg (by omega), Int.sub_add_cancel] at table
      omega
    · rw [← first] at before
      exact before nonneg
  · by_contra after
    rcases Int.lt_or_eq_of_le (Int.add_one_le_of_lt inside.2) with some_year | last
    · have table := (yearSum_table ⟨(yearSum doe / 365 + 1).toNat, by omega⟩).1
      have bound := yearSum_mono (not_lt.mp after)
      rw [Int.toNat_of_nonneg (by omega)] at table
      omega
    · rw [last] at after
      exact after small

theorem daysFromCivil_eq (y m d : Int) :
    daysFromCivil y m d = yearDay (if m ≤ 2 then y - 1 else y) + (153 * ((m + 9) % 12) + 2) / 5 + d - 719469 := by
  unfold daysFromCivil yearDay
  dsimp only
  split <;> omega

theorem yearDay_era (y e : Int) : yearDay (y + e * 400) = yearDay y + e * 146097 := by
  have fourths : (y + e * 400) / 4 = y / 4 + e * 100 := by omega
  have centuries : (y + e * 400) / 100 = y / 100 + e * 4 := by omega
  have eras : (y + e * 400) / 400 = y / 400 + e := by omega
  unfold yearDay
  omega

theorem daysFromCivil_day (y m d : Int) : daysFromCivil y m d = daysFromCivil y m 1 + d - 1 := by
  rw [daysFromCivil_eq, daysFromCivil_eq]
  omega

theorem month_step (y : Int) {m : Int} (low : 1 ≤ m) (high : m ≤ 12) :
    (if m = 12 then daysFromCivil (y + 1) 1 1 else daysFromCivil y (m + 1) 1) = daysFromCivil y m 1 + monthDays y m := by
  simp only [daysFromCivil_eq, yearDay, monthDays, leap]
  interval_cases m <;> simp <;> omega

theorem monthDays_bounds (y m : Int) : 28 ≤ monthDays y m ∧ monthDays y m ≤ 31 := by
  unfold monthDays
  split_ifs <;> omega

theorem civil_spec (z : Int) :
    IsDate (civilFromDays z).1 (civilFromDays z).2.1 (civilFromDays z).2.2 ∧
      daysFromCivil (civilFromDays z).1 (civilFromDays z).2.1 (civilFromDays z).2.2 = z := by
  unfold civilFromDays
  dsimp only
  generalize era : (z + 719468) / 146097 = e
  obtain ⟨doe, rest⟩ : ∃ doe, z + 719468 - e * 146097 = doe := ⟨_, rfl⟩
  obtain ⟨least, most, start, finish⟩ := year_of_day (show 0 ≤ doe by omega) (by omega)
  rw [rest, show (doe - doe / 1460 + doe / 36524 - doe / 146096) / 365 = yearSum doe / 365 from rfl]
  generalize yearSum doe / 365 = yoe at *
  have whole : 365 * yoe + yoe / 4 - yoe / 100 = yearDay yoe := by
    unfold yearDay
    omega
  have length : yearDay (yoe + 1) ≤ yearDay yoe + 366 := by
    unfold yearDay
    omega
  obtain ⟨doy, dayOf⟩ : ∃ doy, doe - yearDay yoe = doy := ⟨_, rfl⟩
  obtain ⟨mp, month⟩ : ∃ mp, (5 * doy + 2) / 153 = mp := ⟨_, rfl⟩
  rw [whole, dayOf, month]
  -- the month of a year that starts in March, and the date it is part of
  have same : ∀ y m, 1 ≤ m ∧ m ≤ 12 → (m + 9) % 12 = mp → (if m ≤ 2 then y - 1 else y) = yoe + e * 400 →
      IsDate y m (doy - (153 * mp + 2) / 5 + 1) ∧ daysFromCivil y m (doy - (153 * mp + 2) / 5 + 1) = z := by
    intro y m inYear march year
    have exact : daysFromCivil y m (doy - (153 * mp + 2) / 5 + 1) = z := by
      rw [daysFromCivil_eq, march, year, yearDay_era]
      omega
    have next : z < if m = 12 then daysFromCivil (y + 1) 1 1 else daysFromCivil y (m + 1) 1 := by
      rw [daysFromCivil_eq, daysFromCivil_eq]
      rcases eq_or_ne m 2 with rfl | later
      · rw [if_pos le_rfl] at year
        rw [if_neg (by decide), if_neg (by decide), show y = yoe + 1 + e * 400 by omega, yearDay_era]
        omega
      split
      · rw [if_neg (by omega)] at year
        rw [if_pos (by decide), Int.add_sub_cancel, year, yearDay_era]
        omega
      · rw [show (if m + 1 ≤ 2 then y - 1 else y) = yoe + e * 400 by rw [← year]; split_ifs <;> omega, yearDay_era,
          show (m + 1 + 9) % 12 = mp + 1 by omega]
        omega
    have dated := exact
    rw [month_step y inYear.1 inYear.2] at next
    rw [daysFromCivil_day] at dated
    exact ⟨⟨inYear, by omega, by omega⟩, exact⟩
  rcases lt_or_ge mp 10 with early | late
  · rw [if_pos early, if_neg (by omega)]
    exact same _ _ (by omega) (by omega) (if_neg (by omega))
  · rw [if_neg (not_lt.mpr late), if_pos (by omega)]
    exact same _ _ (by omega) (by omega) (by rw [if_pos (by omega)]; omega)

def monthStart (k : Int) : Int := daysFromCivil (k / 12) (k % 12 + 1) 1

theorem monthStart_of (y : Int) {m : Int} (inYear : 1 ≤ m ∧ m ≤ 12) : monthStart (y * 12 + (m - 1)) = daysFromCivil y m 1 := by
  rw [monthStart, show (y * 12 + (m - 1)) / 12 = y by omega, show (y * 12 + (m - 1)) % 12 + 1 = m by omega]

theorem monthStart_succ (k : Int) : monthStart (k + 1) = monthStart k + monthDays (k / 12) (k % 12 + 1) := by
  have step := month_step (k / 12) (show 1 ≤ k % 12 + 1 by omega) (by omega)
  rw [monthStart, monthStart, ← step]
  split
  · rw [show (k + 1) / 12 = k / 12 + 1 by omega, show (k + 1) % 12 + 1 = 1 by omega]
  · rw [show (k + 1) / 12 = k / 12 by omega, show (k + 1) % 12 + 1 = k % 12 + 1 + 1 by omega]

theorem IsDate.bracket {y m d : Int} (date : IsDate y m d) :
    monthStart (y * 12 + (m - 1)) ≤ daysFromCivil y m d ∧ daysFromCivil y m d < monthStart (y * 12 + (m - 1) + 1) := by
  obtain ⟨inYear, first, last⟩ := date
  rw [monthStart_succ, monthStart_of y inYear, show (y * 12 + (m - 1)) / 12 = y by omega,
    show (y * 12 + (m - 1)) % 12 + 1 = m by omega, daysFromCivil_day y m d]
  omega

def months : Grid where
  start k := monthStart k * dayMs
  index := monthIndex
  rises k := by
    have days := monthDays_bounds (k / 12) (k % 12 + 1)
    rw [monthStart_succ]
    unfold dayMs
    omega
  low t := by
    have bracket := (civil_spec (t / dayMs)).1.bracket.1
    rw [(civil_spec (t / dayMs)).2] at bracket
    change monthStart ((civilFromDays (t / dayMs)).1 * 12 + ((civilFromDays (t / dayMs)).2.1 - 1)) * dayMs ≤ t
    unfold dayMs at *
    omega
  high t := by
    have bracket := (civil_spec (t / dayMs)).1.bracket.2
    rw [(civil_spec (t / dayMs)).2] at bracket
    change t < monthStart ((civilFromDays (t / dayMs)).1 * 12 + ((civilFromDays (t / dayMs)).2.1 - 1) + 1) * dayMs
    unfold dayMs at *
    omega

theorem civil_of_date {y m d : Int} (date : IsDate y m d) : civilFromDays (daysFromCivil y m d) = (y, m, d) := by
  obtain ⟨found, exact⟩ := civil_spec (daysFromCivil y m d)
  generalize civilFromDays (daysFromCivil y m d) = c at *
  obtain ⟨y', m', d'⟩ := c
  have marks : ∀ {y' m' d' : Int}, IsDate y' m' d' → daysFromCivil y' m' d' = daysFromCivil y m d →
      months.index (daysFromCivil y m d * dayMs) = y' * 12 + (m' - 1) := by
    intro y' m' d' date same
    obtain ⟨low, high⟩ := date.bracket
    rw [same] at low high
    exact months.index_eq (Int.mul_le_mul_of_nonneg_right low (by decide)) (Int.mul_lt_mul_of_pos_right high (by decide))
  have index := (marks found exact).symm.trans (marks date rfl)
  have inYear := date.month
  have inYear' := found.month
  obtain rfl : m' = m := by
    dsimp only at *
    omega
  obtain rfl : y' = y := by
    dsimp only at *
    omega
  rw [daysFromCivil_day, daysFromCivil_day y' m' d] at exact
  obtain rfl : d' = d := by
    dsimp only at *
    omega
  rfl

def fixed (anchor : Int) {len : Int} (positive : 0 < len) : Grid where
  start k := anchor + len * k
  index t := (t - anchor) / len
  rises k := by
    rw [Int.mul_add]
    omega
  low t := by
    have := Int.mul_ediv_self_le (x := t - anchor) positive.ne'
    omega
  high t := by
    have := Int.lt_ediv_add_one_mul_self (t - anchor) positive
    rw [Int.mul_comm] at this
    omega

theorem lenMs_pos (tfS : Nat) : 0 < lenMs tfS := by
  unfold lenMs
  split <;> omega

def anchorMs (tfS : Nat) : Int := if tfS = weekS then weekAnchorMs else 0

def gridOf (tfS : Nat) : Grid := if tfS = tfMonthS then months else fixed (anchorMs tfS) (lenMs_pos tfS)

/-- Within a little more than the domain, so that the bars at its ends are inside. -/
def Near (t : Int) : Prop := -(2 ^ 62 + 2 ^ 34) ≤ t ∧ t ≤ 2 ^ 62 + 2 ^ 34

variable {tfS : Nat} {t k : Int}

theorem Near.inI64 (near : Near t) {x : Int} (close : -2 ^ 34 ≤ x - t ∧ x - t ≤ 2 ^ 34) : InI64 x := by
  unfold Near InI64 i64Min i64Max at *
  omega

theorem lenMs_le (allowed : tfS ∈ allowedTfS) : lenMs tfS ≤ 2 ^ 32 := by
  unfold allowedTfS tfMonthS at allowed
  unfold lenMs
  simp only [List.mem_cons, List.not_mem_nil, or_false] at allowed
  split <;> omega

theorem week_len (week : tfS = weekS) : weekMs = lenMs tfS := by
  rw [week]
  rfl

theorem openMs_eq (allowed : tfS ∈ allowedTfS) (near : Near t) :
    openMs t tfS = (gridOf tfS).start ((gridOf tfS).index t) := by
  unfold openMs gridOf
  split
  · have low := months.low t
    have high := months.high t
    have days := monthDays_bounds (monthIndex t / 12) (monthIndex t % 12 + 1)
    have first : daysFromCivil (civilFromDays (t / dayMs)).1 (civilFromDays (t / dayMs)).2.1 1 = monthStart (monthIndex t) :=
      (monthStart_of _ (civil_spec _).1.month).symm
    dsimp only [months] at *
    rw [monthStart_succ] at high
    rw [first]
    refine clamp_of_inI64 (near.inI64 ?_)
    unfold dayMs at *
    omega
  · have short := lenMs_le allowed
    have positive := lenMs_pos tfS
    have low := Int.emod_nonneg (t - anchorMs tfS) positive.ne'
    have high := Int.emod_lt_of_pos (t - anchorMs tfS) positive
    have parts := Int.emod_add_mul_ediv (t - anchorMs tfS) (lenMs tfS)
    have exact : satSub t ((t - anchorMs tfS) % lenMs tfS) = t - (t - anchorMs tfS) % lenMs tfS :=
      satSub_exact (near.inI64 (by omega))
    have branch : (if tfS = weekS then satSub t (satSub t weekAnchorMs % weekMs) else satSub t (t % lenMs tfS)) =
        satSub t ((t - anchorMs tfS) % lenMs tfS) := by
      unfold anchorMs
      split
      · rename_i week
        rw [satSub_exact (a := t) (b := weekAnchorMs) (near.inI64 (by unfold weekAnchorMs; omega)), week]
        rfl
      · rw [Int.sub_zero]
    rw [branch, exact]
    dsimp only [fixed]
    omega

theorem closeMs_eq (allowed : tfS ∈ allowedTfS) (near : Near ((gridOf tfS).start k)) :
    closeMs ((gridOf tfS).start k) tfS = (gridOf tfS).start (k + 1) := by
  have branch : ∀ o, (if tfS = weekS then satAdd o weekMs else satAdd o (lenMs tfS)) = satAdd o (lenMs tfS) := by
    intro o
    split
    · rw [week_len (by assumption)]
    · rfl
  rw [closeMs, branch]
  unfold gridOf at *
  split_ifs at near ⊢ with month
  · have days := monthDays_bounds (k / 12) (k % 12 + 1)
    have date : IsDate (k / 12) (k % 12 + 1) 1 := ⟨by omega, le_rfl, by omega⟩
    have read : civilFromDays (monthStart k * dayMs / dayMs) = (k / 12, k % 12 + 1, 1) := by
      rw [Int.mul_ediv_cancel _ (by decide)]
      exact civil_of_date date
    dsimp only [months] at *
    rw [read]
    dsimp only
    rw [month_step _ date.month.1 date.month.2, monthStart_succ]
    refine clamp_of_inI64 (near.inI64 ?_)
    unfold monthStart dayMs
    omega
  · have short := lenMs_le allowed
    have positive := lenMs_pos tfS
    rw [satAdd_exact (near.inI64 (by omega))]
    dsimp only [fixed]
    rw [Int.mul_add, Int.mul_one, Int.add_assoc]

theorem monthStart_small (k : Int) : (0 ≤ k → k - 800000 ≤ monthStart k) ∧ (k ≤ 0 → monthStart k ≤ k + 800000) := by
  unfold monthStart
  rw [daysFromCivil_eq]
  unfold yearDay
  constructor <;> intro side <;> split <;> omega

theorem satSub_seconds {a b : Int} (inside : |a| ≤ tAbsMaxMs) (inside' : |b| ≤ tAbsMaxMs) (whole : a % 1000 = 0)
    (whole' : b % 1000 = 0) : satSub b a = b - a := by
  rw [abs_le] at inside inside'
  refine satSub_exact ?_
  unfold tAbsMaxMs at inside inside'
  unfold InI64 i64Min i64Max
  omega

theorem barsBetween_eq (allowed : tfS ∈ allowedTfS) {i j : Int} (inside : |(gridOf tfS).start i| ≤ tAbsMaxMs)
    (inside' : |(gridOf tfS).start j| ≤ tAbsMaxMs) :
    barsBetween ((gridOf tfS).start i) ((gridOf tfS).start j) tfS = j - i := by
  have branch : (if tfS = weekS then weekMs else lenMs tfS) = lenMs tfS := by
    split
    · exact week_len (by assumption)
    · rfl
  rw [barsBetween, branch]
  unfold gridOf at *
  split_ifs at inside inside' ⊢ with month
  · have first := monthStart_small i
    have second := monthStart_small j
    rw [show monthIndex (months.start j) = j from months.index_start j,
      show monthIndex (months.start i) = i from months.index_start i]
    refine satSub_exact ?_
    rw [abs_le] at inside inside'
    dsimp only [months] at inside inside'
    unfold tAbsMaxMs dayMs at inside inside'
    unfold InI64 i64Min i64Max
    omega
  · have positive : tfS ≠ 0 := fun none => absurd (none ▸ allowed) (by decide)
    have whole : ∀ k, (anchorMs tfS + lenMs tfS * k) % 1000 = 0 := by
      intro k
      rw [lenMs, if_neg positive, Int.mul_right_comm, Int.add_mul_emod_self_right]
      unfold anchorMs
      split <;> rfl
    rw [satSub_seconds inside inside' (whole i) (whole j)]
    dsimp only [fixed]
    rw [Int.add_sub_add_left, ← Int.mul_sub, Int.mul_ediv_cancel_left _ (lenMs_pos tfS).ne']

theorem span (allowed : tfS ∈ allowedTfS) (k : Int) : (gridOf tfS).start (k + 1) ≤ (gridOf tfS).start k + 2 ^ 32 := by
  unfold gridOf
  split
  · have days := monthDays_bounds (k / 12) (k % 12 + 1)
    dsimp only [months]
    rw [monthStart_succ]
    unfold dayMs
    omega
  · have short := lenMs_le allowed
    dsimp only [fixed]
    rw [Int.mul_add, Int.mul_one]
    omega

theorem near_of_inside (inside : |t| ≤ tAbsMaxMs) {x : Int} (close : t - 2 ^ 33 ≤ x ∧ x ≤ t + 2 ^ 33) : Near x := by
  rw [abs_le] at inside
  unfold Near
  unfold tAbsMaxMs at inside
  omega

/-- Opens are the marks of the grid, so those from one to another are counted by their indices. -/
theorem card_opens (allowed : tfS ∈ allowedTfS) {a b : Int} (inside : |a| ≤ tAbsMaxMs) (inside' : |b| ≤ tAbsMaxMs)
    (opens : (gridOf tfS).start ((gridOf tfS).index a) = a) (opens' : (gridOf tfS).start ((gridOf tfS).index b) = b) :
    ((Finset.Ico a b).filter fun x => openMs x tfS = x).card = ((gridOf tfS).index b - (gridOf tfS).index a).toNat := by
  rw [← (gridOf tfS).card_marks, opens, opens']
  refine congrArg Finset.card (Finset.filter_congr fun x between => ?_)
  rw [Finset.mem_Ico] at between
  rw [abs_le] at inside inside'
  rw [openMs_eq allowed (by unfold Near; unfold tAbsMaxMs at inside inside'; omega)]

/-- The bars of every timeframe part the line, and the civil calendar counts its days. -/
theorem bar_calendar (tfS : Nat) (allowed : tfS ∈ allowedTfS) (t : Int) (inside : |t| ≤ tAbsMaxMs) :
    (openMs t tfS ≤ t ∧ t < closeMs (openMs t tfS) tfS ∧ openMs (openMs t tfS) tfS = openMs t tfS) ∧
    (openMs (closeMs (openMs t tfS) tfS) tfS = closeMs (openMs t tfS) tfS ∧
      ∀ x, openMs t tfS < x → x < closeMs (openMs t tfS) tfS → openMs x tfS ≠ x) ∧
    (tfS = tfMonthS → ∃ y m, IsDate y m 1 ∧ openMs t tfS = daysFromCivil y m 1 * dayMs) ∧
    (∀ a b, |a| ≤ tAbsMaxMs → |b| ≤ tAbsMaxMs → openMs a tfS = a → openMs b tfS = b → barsBetween a b tfS =
      if a ≤ b then (((Finset.Ico a b).filter fun x => openMs x tfS = x).card : Int)
      else -(((Finset.Ico b a).filter fun x => openMs x tfS = x).card : Int)) ∧
    (∀ z, IsDate (civilFromDays z).1 (civilFromDays z).2.1 (civilFromDays z).2.2 ∧
      daysFromCivil (civilFromDays z).1 (civilFromDays z).2.1 (civilFromDays z).2.2 = z) ∧
    ∀ y m d, IsDate y m d → civilFromDays (daysFromCivil y m d) = (y, m, d) := by
  have index := (gridOf tfS).index_start
  have low := (gridOf tfS).low t
  have high := (gridOf tfS).high t
  have long := span allowed ((gridOf tfS).index t)
  have opened := openMs_eq allowed (near_of_inside (x := t) inside (by omega))
  generalize (gridOf tfS).index t = k at *
  have here : Near ((gridOf tfS).start k) := near_of_inside inside (by omega)
  have there : Near ((gridOf tfS).start (k + 1)) := near_of_inside inside (by omega)
  have closed := closeMs_eq allowed here
  rw [opened, closed]
  refine ⟨⟨low, high, ?_⟩, ⟨?_, ?_⟩, ?_, ?_, civil_spec, fun y m d => civil_of_date⟩
  · rw [openMs_eq allowed here, index]
  · rw [openMs_eq allowed there, index]
  · intro x after before
    rw [openMs_eq allowed (near_of_inside inside (by omega)), (gridOf tfS).index_eq after.le before]
    exact after.ne
  · intro month
    refine ⟨k / 12, k % 12 + 1, ⟨by omega, le_rfl, ?_⟩, ?_⟩
    · have := monthDays_bounds (k / 12) (k % 12 + 1)
      omega
    · rw [gridOf, if_pos month]
      rfl
  · intro a b near near' opens opens'
    rw [openMs_eq allowed (near_of_inside (x := a) near (by omega))] at opens
    rw [openMs_eq allowed (near_of_inside (x := b) near' (by omega))] at opens'
    have counted := barsBetween_eq allowed (opens.symm ▸ near) (opens'.symm ▸ near')
    rw [opens, opens'] at counted
    rw [counted, card_opens allowed near near' opens opens', card_opens allowed near' near opens' opens]
    split
    · rename_i order
      have := (gridOf tfS).strictMono.le_iff_le.mp (opens.symm ▸ opens'.symm ▸ order)
      omega
    · rename_i order
      have := (gridOf tfS).strictMono.lt_iff_lt.mp (opens.symm ▸ opens'.symm ▸ not_le.mp order)
      omega

theorem march_opens : openMs 1709251200000 tfMonthS ≤ 1709251200000 ∧
    ∃ y m, IsDate y m 1 ∧ openMs 1709251200000 tfMonthS = daysFromCivil y m 1 * dayMs := by
  obtain ⟨⟨low, -⟩, -, month, -⟩ := bar_calendar tfMonthS (by decide) 1709251200000 (by decide)
  exact ⟨low, month rfl⟩

end TradingEngine.Time
