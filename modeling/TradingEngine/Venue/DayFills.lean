import TradingEngine.Base.Saturating

/-!
# The day's fills

The boot sums today's fills over pages of the venue's history.
-/

namespace TradingEngine.Venue

open Base List

def i128Max : Int := 2 ^ 127 - 1

def i128Clamp (x : Int) : Int := max (-2 ^ 127) (min x i128Max)

def fillsPageMax : Nat := 2000

def fillsVisibleMax : Nat := 10000

inductive Dir where
  | openLong | openShort | closeLong | closeShort | longToShort | shortToLong | other
  deriving DecidableEq, Repr

/-- The fields of a row. One that is missing, or a decimal past six places, is `none`. -/
structure FillRow where
  time : Option Nat
  coin : Option (List UInt8)
  px : Option Int
  sz : Option Int
  dir : Option Dir
  startPosition : Option Int
  deriving DecidableEq, Repr

structure FillsDay where
  opening1e12 : Int
  abs1e12 : Int
  lastTimeMs : Int
  deriving DecidableEq, Repr

/-- The part that opens or increases the position; of a flip, what is past zero. -/
def openPart (row : FillRow) (sz : Int) : Option Int :=
  row.dir.bind fun
    | .openLong | .openShort => some sz
    | .closeLong | .closeShort => some 0
    | .longToShort | .shortToLong =>
      row.startPosition.bind fun start => if sz - satAbs start < 0 then none else some (sz - satAbs start)
    | .other => none

/-- What a row of the coin adds to the two sums. -/
def worth (row : FillRow) : Option (Int × Int) :=
  row.px.bind fun px => row.sz.bind fun sz =>
    if px ≤ 0 ∨ sz ≤ 0 then none else (openPart row sz).map fun part => (px * part, px * sz)

def FillsDay.add (day : FillsDay) (amounts : Int × Int) : FillsDay :=
  { day with opening1e12 := i128Clamp (day.opening1e12 + amounts.1), abs1e12 := i128Clamp (day.abs1e12 + amounts.2) }

def scanRow (coin : List UInt8) (day : FillsDay) (row : FillRow) : Option FillsDay :=
  row.time.bind fun time =>
    if i64Max < time then none
    else row.coin.bind fun c => (if c = coin then (worth row).map day.add else some day).map fun day =>
      { day with lastTimeMs := max day.lastTimeMs time }

def scanFillsDay (coin : List UInt8) : FillsDay → List FillRow → Option FillsDay
  | day, [] => some day
  | day, row :: rows => (scanRow coin day row).bind fun day => scanFillsDay coin day rows

/-- The start of every page asked for, and the day unless it was refused. -/
structure Paged where
  starts : List Int
  day : Option FillsDay
  deriving DecidableEq, Repr

/-- Without fuel the loop has not ended. -/
def dayFillsFrom (fetch : Int → Option (List FillRow)) (coin : List UInt8) : Nat → Int → Nat → FillsDay → Option Paged
  | 0, _, _, _ => none
  | fuel + 1, start, total, day =>
    match (fetch start).bind fun rows => (scanFillsDay coin day rows).map fun day => (rows.length, day) with
    | none => some ⟨[start], none⟩
    | some (rows, day) =>
      if rows < fillsPageMax then some ⟨[start], some day⟩
      else if fillsVisibleMax ≤ min (total + rows) u32Max ∨ day.lastTimeMs ≤ start then some ⟨[start], none⟩
      else (dayFillsFrom fetch coin fuel day.lastTimeMs (min (total + rows) u32Max) day).map fun rest =>
        ⟨start :: rest.starts, rest.day⟩

def dayFills (fetch : Int → Option (List FillRow)) (coin : List UInt8) (dayStart : Int) (fuel : Nat) : Option Paged :=
  dayFillsFrom fetch coin fuel dayStart 0 ⟨0, 0, dayStart⟩

def FillRow.stamp (row : FillRow) : Int := (row.time.getD 0 : Nat)

def since (history : List FillRow) (t : Int) : List FillRow := history.filter fun row => t ≤ row.stamp

def stamped (history : List FillRow) (t : Int) : List FillRow := history.filter fun row => row.stamp = t

def page (history : List FillRow) (t : Int) : List FillRow := (since history t).take fillsPageMax

def opening (coin : List UInt8) (row : FillRow) : Int :=
  if row.coin = some coin then ((worth row).getD (0, 0)).1 else 0

def absolute (coin : List UInt8) (row : FillRow) : Int :=
  if row.coin = some coin then ((worth row).getD (0, 0)).2 else 0

def sumOf (amount : FillRow → Int) (rows : List FillRow) : Int := (rows.map amount).sum

/-- The page from `start` is full, and `last` is its last millisecond. -/
def FullPage (history : List FillRow) (start last : Int) : Prop :=
  start < last ∧ (page history start).length = fillsPageMax ∧
    (∀ row ∈ page history start, row.stamp ≤ last) ∧ ∃ row ∈ page history start, row.stamp = last

section Page

variable {coin : List UInt8} {day day' : FillsDay} {row : FillRow} {rows : List FillRow} {a b : Int}

/-- The sums a day stands for, before they saturate. -/
structure Carries (day : FillsDay) (a b : Int) : Prop where
  opens : 0 ≤ a ∧ day.opening1e12 = min a i128Max
  counts : 0 ≤ b ∧ day.abs1e12 = min b i128Max

theorem worth_nonneg {amounts : Int × Int} (known : worth row = some amounts) : 0 ≤ amounts.1 ∧ 0 ≤ amounts.2 := by
  unfold worth at known
  obtain ⟨px, -, known⟩ := Option.bind_eq_some_iff.mp known
  obtain ⟨sz, -, known⟩ := Option.bind_eq_some_iff.mp known
  split at known
  · exact absurd known nofun
  rename_i positive
  obtain ⟨part, opened, rfl⟩ := Option.map_eq_some_iff.mp known
  have part_nonneg : 0 ≤ part := by
    unfold openPart at opened
    obtain ⟨dir, -, opened⟩ := Option.bind_eq_some_iff.mp opened
    split at opened
    case h_5 | h_6 =>
      obtain ⟨start, -, opened⟩ := Option.bind_eq_some_iff.mp opened
      split at opened
      · exact absurd opened nofun
      · cases opened
        omega
    case h_7 => exact absurd opened nofun
    all_goals
      cases opened
      omega
  exact ⟨Int.mul_nonneg (by omega) part_nonneg, Int.mul_nonneg (by omega) (by omega)⟩

theorem amounts_nonneg (coin : List UInt8) (row : FillRow) : 0 ≤ opening coin row ∧ 0 ≤ absolute coin row := by
  unfold opening absolute
  split
  · cases known : worth row with
    | none => exact ⟨le_rfl, le_rfl⟩
    | some amounts => exact worth_nonneg known
  · exact ⟨le_rfl, le_rfl⟩

theorem clamp_min {x y z : Int} (nonneg : 0 ≤ x) (more : 0 ≤ y) (same : z = min x i128Max) :
    0 ≤ x + y ∧ i128Clamp (z + y) = min (x + y) i128Max := by
  unfold i128Clamp i128Max at *
  omega

theorem Carries.scanRow (carries : Carries day a b) (scanned : scanRow coin day row = some day') :
    Carries day' (a + opening coin row) (b + absolute coin row) ∧ day'.lastTimeMs = max day.lastTimeMs row.stamp ∧
      (row.coin = some coin → worth row ≠ none) := by
  unfold Venue.scanRow at scanned
  obtain ⟨time, stamp, scanned⟩ := Option.bind_eq_some_iff.mp scanned
  split at scanned
  · exact absurd scanned nofun
  obtain ⟨c, named, scanned⟩ := Option.bind_eq_some_iff.mp scanned
  obtain ⟨next, added, rfl⟩ := Option.map_eq_some_iff.mp scanned
  unfold opening absolute FillRow.stamp
  simp only [named, stamp, Option.some.injEq]
  split at added
  · rename_i own
    obtain ⟨amounts, known, rfl⟩ := Option.map_eq_some_iff.mp added
    obtain ⟨opens, counts⟩ := worth_nonneg known
    rw [if_pos own, if_pos own, known]
    exact ⟨⟨clamp_min carries.opens.1 opens carries.opens.2, clamp_min carries.counts.1 counts carries.counts.2⟩, rfl,
      fun _ => nofun⟩
  · rename_i other
    cases added
    rw [if_neg other, if_neg other, Int.add_zero, Int.add_zero]
    exact ⟨⟨carries.opens, carries.counts⟩, rfl, fun own => absurd own other⟩

theorem Carries.scanFillsDay (carries : Carries day a b) (scanned : scanFillsDay coin day rows = some day') :
    Carries day' (a + sumOf (opening coin) rows) (b + sumOf (absolute coin) rows) ∧
      (∀ row ∈ rows, row.stamp ≤ day'.lastTimeMs ∧ (row.coin = some coin → worth row ≠ none)) ∧
      day.lastTimeMs ≤ day'.lastTimeMs ∧
      (day'.lastTimeMs = day.lastTimeMs ∨ ∃ row ∈ rows, row.stamp = day'.lastTimeMs) := by
  induction rows generalizing day a b with
  | nil =>
    cases scanned
    refine ⟨?_, nofun, le_rfl, .inl rfl⟩
    simpa [sumOf] using carries
  | cons row rows ih =>
    obtain ⟨next, first, rest⟩ := Option.bind_eq_some_iff.mp scanned
    obtain ⟨step, last, known⟩ := carries.scanRow first
    obtain ⟨run, bounded, later, reached⟩ := ih step rest
    refine ⟨?_, ?_, by omega, ?_⟩
    · simpa only [sumOf, map_cons, sum_cons, Int.add_assoc] using run
    · intro other member
      rcases mem_cons.mp member with rfl | member
      · exact ⟨by omega, known⟩
      · exact bounded other member
    · rcases reached with same | ⟨other, member, stamp⟩
      · rcases max_choice day.lastTimeMs row.stamp with kept | moved
        · exact .inl (by omega)
        · exact .inr ⟨row, mem_cons_self, by omega⟩
      · exact .inr ⟨other, mem_cons_of_mem row member, stamp⟩

end Page

section Pages

variable {history : List FillRow} {coin : List UInt8} {amount : FillRow → Int} {start last : Int}

theorem sumOf_append (amount : FillRow → Int) (rows more : List FillRow) : sumOf amount (rows ++ more) = sumOf amount rows + sumOf amount more := by
  rw [sumOf, map_append, sum_append]
  rfl

theorem sumOf_le_of_sublist {rows more : List FillRow} (nonneg : ∀ row, 0 ≤ amount row) (part : rows.Sublist more) :
    0 ≤ sumOf amount rows ∧ sumOf amount rows ≤ sumOf amount more := by
  unfold sumOf
  induction part with
  | slnil => exact ⟨le_rfl, le_rfl⟩
  | cons row _ ih =>
    have := nonneg row
    rw [map_cons, sum_cons]
    omega
  | cons_cons row _ ih =>
    have := nonneg row
    rw [map_cons, map_cons, sum_cons, sum_cons]
    omega

theorem since_since (later : start ≤ last) : since (since history start) last = since history last := by
  unfold since
  rw [filter_filter]
  refine filter_congr fun row _ => ?_
  simp only [← Bool.decide_and, decide_eq_decide]
  omega

theorem page_append (history : List FillRow) (start : Int) :
    page history start ++ (since history start).drop fillsPageMax = since history start := take_append_drop ..

theorem since_last (ordered : history.Pairwise fun a b => a.stamp ≤ b.stamp) (full : FullPage history start last) :
    since history last = (page history start).filter (fun row => last ≤ row.stamp) ++
      (since history start).drop fillsPageMax := by
  obtain ⟨later, -, -, own, member, stamp⟩ := full
  have sorted : (since history start).Pairwise fun a b => a.stamp ≤ b.stamp := ordered.filter _
  rw [← page_append, pairwise_append] at sorted
  have beyond : ((since history start).drop fillsPageMax).filter (fun row => last ≤ row.stamp) =
      (since history start).drop fillsPageMax :=
    filter_eq_self.mpr fun row after => decide_eq_true (stamp ▸ sorted.2.2 own member row after)
  have tail := congrArg (since · last) (page_append history start)
  rw [since_since later.le, since, filter_append, beyond] at tail
  exact tail.symm

theorem page_overlap (ordered : history.Pairwise fun a b => a.stamp ≤ b.stamp) (nonneg : ∀ row, 0 ≤ amount row)
    (full : FullPage history start last) :
    sumOf amount (since history start) ≤ sumOf amount (page history start) + sumOf amount (since history last) ∧
      sumOf amount (page history start) + sumOf amount (since history last) ≤
        sumOf amount (since history start) + sumOf amount (stamped history last) := by
  have shared : ((page history start).filter fun row => last ≤ row.stamp).Sublist (stamped history last) := by
    have same : (page history start).filter (fun row => last ≤ row.stamp) = stamped (page history start) last := by
      refine filter_congr fun row inPage => ?_
      have := full.2.2.1 row inPage
      simp only [decide_eq_decide]
      omega
    rw [same]
    exact ((take_sublist ..).trans filter_sublist).filter _
  obtain ⟨least, most⟩ := sumOf_le_of_sublist nonneg shared
  have whole := sumOf_append amount (page history start) ((since history start).drop fillsPageMax)
  rw [page_append] at whole
  rw [since_last ordered full, sumOf_append]
  omega

theorem dayFillsFrom_ends (fetch : Int → Option (List FillRow)) (coin : List UInt8) {k fuel : Nat} (fuelled : k ≤ fuel)
    (some_page : 0 < k) (start : Int) {total : Nat} (day : FillsDay) (room : fillsVisibleMax ≤ total + k * fillsPageMax) :
    ∃ out, dayFillsFrom fetch coin fuel start total day = some out ∧ out.starts.length ≤ k := by
  induction k generalizing fuel start total day with
  | zero => exact absurd some_page (lt_irrefl 0)
  | succ k ih =>
    obtain ⟨fuel, rfl⟩ := Nat.exists_eq_add_of_le' (Nat.zero_lt_of_lt fuelled)
    have one : 1 ≤ k + 1 := Nat.le_add_left 1 k
    rw [dayFillsFrom]
    split
    · exact ⟨_, rfl, one⟩
    rename_i rows day' read
    split_ifs with short refused
    · exact ⟨_, rfl, one⟩
    · exact ⟨_, rfl, one⟩
    have counted : fillsVisibleMax ≤ min (total + rows) u32Max + k * fillsPageMax := by
      unfold fillsVisibleMax fillsPageMax u32Max at *
      omega
    have more : 0 < k := by
      rcases Nat.eq_zero_or_pos k with rfl | more
      · exact absurd (.inl (by simpa using counted)) refused
      · exact more
    obtain ⟨rest, run, few⟩ := ih (Nat.le_of_succ_le_succ fuelled) more day'.lastTimeMs day' counted
    exact ⟨⟨start :: rest.starts, rest.day⟩, by rw [run]; rfl, Nat.succ_le_succ few⟩

/-- The sums read lie between the true sum and the true sum with the shared milliseconds once more. -/
def Overcounts (history : List FillRow) (amount : FillRow → Int) (start : Int) (lasts : List Int) (x : Int) : Prop :=
  sumOf amount (since history start) ≤ x ∧
    x ≤ sumOf amount (since history start) + (lasts.map fun t => sumOf amount (stamped history t)).sum

theorem Overcounts.page {x : Int} {lasts : List Int} (ordered : history.Pairwise fun a b => a.stamp ≤ b.stamp)
    (nonneg : ∀ row, 0 ≤ amount row) (full : FullPage history start last)
    (rest : Overcounts history amount last lasts x) :
    Overcounts history amount start (last :: lasts) (sumOf amount (page history start) + x) := by
  obtain ⟨low, high⟩ := page_overlap ordered nonneg full
  obtain ⟨least, most⟩ := rest
  unfold Overcounts
  rw [map_cons, sum_cons]
  omega

theorem dayFillsFrom_sums (ordered : history.Pairwise fun a b => a.stamp ≤ b.stamp) {fuel total : Nat} {start a b : Int}
    {day day' : FillsDay} {starts : List Int} (carries : Carries day a b) (here : day.lastTimeMs = start)
    (run : dayFillsFrom (fun t => some (page history t)) coin fuel start total day = some ⟨starts, some day'⟩) :
    ∃ lasts x y, starts = start :: lasts ∧ (start :: lasts).IsChain (FullPage history) ∧ Carries day' (a + x) (b + y) ∧
      Overcounts history (opening coin) start lasts x ∧ Overcounts history (absolute coin) start lasts y ∧
      ∀ row ∈ since history start, row.coin = some coin → worth row ≠ none := by
  induction fuel generalizing start total a b day starts with
  | zero => exact absurd run nofun
  | succ fuel ih =>
    rw [dayFillsFrom, Option.bind_some] at run
    cases scanned : scanFillsDay coin day (page history start) with
    | none => simp [scanned] at run
    | some next =>
      obtain ⟨summed, known, -, reached⟩ := carries.scanFillsDay scanned
      simp only [scanned, Option.map_some] at run
      have whole : (page history start).length ≤ fillsPageMax := length_take_le ..
      split_ifs at run with short refused
      · cases run
        have all : page history start = since history start := by
          refine take_of_length_le (le_of_not_gt fun long => ?_)
          rw [page, length_take] at short
          omega
        refine ⟨[], _, _, rfl, isChain_singleton _, summed, ?_, ?_, fun row member => (known row (all ▸ member)).2⟩
        · simp [Overcounts, all]
        · simp [Overcounts, all]
      · simp at run
      · obtain ⟨⟨restStarts, restDay⟩, rest, same⟩ := Option.map_eq_some_iff.mp run
        cases same
        have full : FullPage history start next.lastTimeMs := by
          refine ⟨by omega, by omega, fun row member => (known row member).1, ?_⟩
          exact reached.resolve_left (by omega)
        obtain ⟨lasts, x, y, tail, chain, total, opens, counts, readable⟩ := ih summed rfl rest
        refine ⟨next.lastTimeMs :: lasts, _, _, by rw [tail], isChain_cons_cons.mpr ⟨full, chain⟩, ?_,
          opens.page ordered (fun row => (amounts_nonneg coin row).1) full,
          counts.page ordered (fun row => (amounts_nonneg coin row).2) full, ?_⟩
        · simpa only [Int.add_assoc] using total
        intro row member own
        rw [← page_append] at member
        rcases mem_append.mp member with inPage | beyond
        · exact (known row inPage).2 own
        · exact readable row (since_last ordered full ▸ mem_append_right _ beyond) own

end Pages

def openedLong : FillRow := ⟨some 5, some [66], some 3000000, some 2000000, some .openLong, none⟩

end TradingEngine.Venue
