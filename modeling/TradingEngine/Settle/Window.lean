import TradingEngine.Base.Hold
import TradingEngine.Base.Saturating

/-!
# The settlement window

The last half hour before an expiry is sampled once a second, each second with the last price seen.
-/

namespace TradingEngine.Settle

open Base List

variable {p : Nat × Int}

def settleWindowMs : Nat := 30 * 60 * 1000

def gridStepMs : Nat := 1000

def gridPoints : Nat := settleWindowMs / gridStepMs

inductive PushRefused where
  | nonPositive
  | outOfOrder
  | afterExpiry
  deriving DecidableEq, Repr

/-- `samples` is the written part of the grid. A held price of zero is none. -/
structure SettleWindow where
  samples : List Int
  tEndMs : Nat
  lastTsMs : Nat
  lastPx : Int
  next : Nat
  deriving DecidableEq, Repr

namespace SettleWindow

def new (tEndMs : Nat) : SettleWindow := ⟨[], tEndMs, 0, 0, 0⟩

/-- The second that grid point `i` stands for; the last is the expiry. -/
def gridMs (w : SettleWindow) (i : Nat) : Nat :=
  (w.tEndMs + u64Size - settleWindowMs + (i + 1) * gridStepMs) % u64Size

def fillNext (w : SettleWindow) : SettleWindow :=
  { w with
    samples := if w.lastPx > 0 then w.samples ++ [w.lastPx] else w.samples
    next := w.next + 1 }

/-- Fill the grid points before an instant; the fuel is the number of grid points left. -/
def advance (tsMs : Nat) : Nat → SettleWindow → SettleWindow
  | 0, w => w
  | fuel + 1, w => if w.gridMs w.next < tsMs then advance tsMs fuel w.fillNext else w

def advanceTo (w : SettleWindow) (tsMs : Nat) : SettleWindow := advance tsMs (gridPoints - w.next) w

def push (w : SettleWindow) (tsMs : Nat) (px : Int) : SettleWindow × Except PushRefused Unit :=
  if px ≤ 0 then (w, .error .nonPositive)
  else if tsMs < w.lastTsMs then (w, .error .outOfOrder)
  else if tsMs > w.tEndMs then (w, .error .afterExpiry)
  else ({ w.advanceTo tsMs with lastPx := px, lastTsMs := tsMs }, .ok ())

def finish (w : SettleWindow) : SettleWindow := w.advanceTo ((w.tEndMs + 1) % u64Size)

def restore (w : SettleWindow) (tEndMs next lastTsMs : Nat) (samples : List Int) : SettleWindow × Except String Unit :=
  if next > gridPoints ∨ samples.length > next then (w, .error "settle window: more points than grid instants")
  else if tEndMs < settleWindowMs ∨ lastTsMs > tEndMs then
    (w, .error "settle window: no window ends there, or a print after it")
  else if samples.any fun px => px ≤ 0 then (w, .error "settle window: a non-positive price")
  else (⟨samples, tEndMs, lastTsMs, 0, next⟩, .ok ())

end SettleWindow

def feed : SettleWindow → List (Nat × Int) → SettleWindow × List (Nat × Int)
  | w, [] => (w, [])
  | w, p :: rest =>
    let next := w.push p.1 p.2
    let others := feed next.1 rest
    (others.1, (match next.2 with | .ok _ => [p] | .error _ => []) ++ others.2)

/-- Every second of the window that a print has reached, with the last price by then. -/
def sampleAndHold (tEndMs : Nat) (prints : List (Nat × Int)) : List Int :=
  (range gridPoints).filterMap fun i => heldAt prints (tEndMs - settleWindowMs + (i + 1) * gridStepMs)

namespace SettleWindow

variable {w : SettleWindow} {tsMs i j : Nat}

theorem gridMs_eq (window : settleWindowMs ≤ w.tEndMs) (word : w.tEndMs < u64Size) (inside : i < gridPoints) :
    w.gridMs i = w.tEndMs - settleWindowMs + (i + 1) * gridStepMs := by
  have bound : (i + 1) * gridStepMs ≤ settleWindowMs := by
    simp only [gridPoints, gridStepMs, settleWindowMs] at inside ⊢
    omega
  rw [gridMs, show w.tEndMs + u64Size - settleWindowMs + (i + 1) * gridStepMs =
    w.tEndMs - settleWindowMs + (i + 1) * gridStepMs + u64Size by omega, Nat.add_mod_right]
  exact Nat.mod_eq_of_lt (by omega)

theorem gridMs_le (window : settleWindowMs ≤ w.tEndMs) (word : w.tEndMs < u64Size) (inside : i < gridPoints) :
    w.gridMs i ≤ w.tEndMs := by
  have bound : (i + 1) * gridStepMs ≤ settleWindowMs := by
    simp only [gridPoints, gridStepMs, settleWindowMs] at inside ⊢
    omega
  rw [gridMs_eq window word inside]
  omega

theorem gridMs_mono (window : settleWindowMs ≤ w.tEndMs) (word : w.tEndMs < u64Size) (le : i ≤ j)
    (inside : j < gridPoints) : w.gridMs i ≤ w.gridMs j := by
  rw [gridMs_eq window word (by omega), gridMs_eq window word inside]
  exact Nat.add_le_add_left (Nat.mul_le_mul_right _ (by omega)) _

def held (w : SettleWindow) : Option Int := if w.lastPx > 0 then some w.lastPx else none

/-- The grid filled up to an instant with the price in force. -/
structure Advanced (w : SettleWindow) (tsMs : Nat) (w' : SettleWindow) : Prop where
  tEndMs : w'.tEndMs = w.tEndMs
  lastTsMs : w'.lastTsMs = w.lastTsMs
  lastPx : w'.lastPx = w.lastPx
  onward : w.next ≤ w'.next
  inside : w'.next ≤ gridPoints
  passed : ∀ i, w.next ≤ i → i < w'.next → w.gridMs i < tsMs
  ahead : w'.next < gridPoints → tsMs ≤ w.gridMs w'.next
  samples : ∀ f : Nat → Option Int, (∀ i, w.next ≤ i → i < w'.next → f i = w.held) →
    w.samples = (range w.next).filterMap f → w'.samples = (range w'.next).filterMap f

theorem fillNext_samples {f : Nat → Option Int} (here : f w.next = w.held)
    (filled : w.samples = (range w.next).filterMap f) :
    w.fillNext.samples = (range w.fillNext.next).filterMap f := by
  rw [fillNext, range_succ, filterMap_append, ← filled, filterMap_cons, here, held]
  split <;> simp [*]

theorem advance_advanced (tsMs : Nat) : ∀ {fuel : Nat} {w : SettleWindow}, w.next + fuel = gridPoints →
    Advanced w tsMs (advance tsMs fuel w) := by
  intro fuel
  induction fuel with
  | zero =>
    intro w room
    exact ⟨rfl, rfl, rfl, Nat.le_refl _, Nat.le_of_eq room, fun i ge lt => absurd lt (Nat.not_lt.mpr ge),
      fun lt => absurd lt (Nat.not_lt.mpr (Nat.le_of_eq room.symm)), fun f _ filled => filled⟩
  | succ fuel ih =>
    intro w room
    rw [advance]
    by_cases due : w.gridMs w.next < tsMs
    · rw [if_pos due]
      have rest := ih (w := w.fillNext) (show w.next + 1 + fuel = gridPoints by omega)
      have onward : w.next + 1 ≤ _ := rest.onward
      refine ⟨rest.tEndMs, rest.lastTsMs, rest.lastPx, by omega, rest.inside, fun i ge lt => ?_, rest.ahead, ?_⟩
      · rcases Nat.eq_or_lt_of_le ge with rfl | gt
        · exact due
        · exact rest.passed i gt lt
      · intro f same filled
        exact rest.samples f (fun i ge lt => same i (Nat.le_of_succ_le ge) lt)
          (fillNext_samples (same w.next (Nat.le_refl _) (by omega)) filled)
    · rw [if_neg due]
      exact ⟨rfl, rfl, rfl, Nat.le_refl _, by omega, fun i ge lt => absurd lt (Nat.not_lt.mpr ge),
        fun _ => Nat.not_lt.mp due, fun f _ filled => filled⟩

theorem advanceTo_advanced (inside : w.next ≤ gridPoints) (tsMs : Nat) : Advanced w tsMs (w.advanceTo tsMs) :=
  advance_advanced tsMs (by omega)

end SettleWindow

/-- A print is taken when its price is positive and its stamp lies between the last one's and the expiry. -/
def takes (tEndMs lastTsMs : Nat) (p : Nat × Int) : Bool := 0 < p.2 && lastTsMs ≤ p.1 && p.1 ≤ tEndMs

def acceptedFrom (tEndMs : Nat) : Nat → List (Nat × Int) → List (Nat × Int)
  | _, [] => []
  | lastTsMs, p :: rest =>
    if takes tEndMs lastTsMs p then p :: acceptedFrom tEndMs p.1 rest else acceptedFrom tEndMs lastTsMs rest

namespace SettleWindow

variable {w : SettleWindow} {prints : List (Nat × Int)}

theorem push_of_takes (taken : takes w.tEndMs w.lastTsMs p) :
    w.push p.1 p.2 = ({ w.advanceTo p.1 with lastPx := p.2, lastTsMs := p.1 }, .ok ()) := by
  simp only [takes, Bool.and_eq_true, decide_eq_true_eq] at taken
  obtain ⟨⟨positive, ordered⟩, inTime⟩ := taken
  rw [push, if_neg (by omega), if_neg (by omega), if_neg (by omega)]

theorem push_of_not_takes (refused : takes w.tEndMs w.lastTsMs p = false) :
    ∃ why, w.push p.1 p.2 = (w, .error why) := by
  simp only [takes, Bool.and_eq_false_iff, decide_eq_false_iff_not] at refused
  unfold push
  split
  · exact ⟨_, rfl⟩
  split
  · exact ⟨_, rfl⟩
  · split
    · exact ⟨_, rfl⟩
    · omega

theorem push_refused {tsMs : Nat} {px : Int} {why : PushRefused} (refused : (w.push tsMs px).2 = .error why) :
    (w.push tsMs px).1 = w := by
  cases taken : takes w.tEndMs w.lastTsMs (tsMs, px) with
  | true =>
    rw [push_of_takes (p := (tsMs, px)) taken] at refused
    cases refused
  | false =>
    obtain ⟨_, eq⟩ := push_of_not_takes (p := (tsMs, px)) taken
    exact congrArg Prod.fst eq

/-- The window stands where the accepted prints have brought it. -/
structure Graded (prints : List (Nat × Int)) (w : SettleWindow) : Prop where
  stamped : ∀ p ∈ prints, p.1 ≤ w.lastTsMs
  held : w.held = prints.getLast?.map Prod.snd
  inside : w.next ≤ gridPoints
  passed : ∀ i < w.next, w.gridMs i < w.lastTsMs
  ahead : w.next < gridPoints → w.lastTsMs ≤ w.gridMs w.next
  samples : w.samples = (range w.next).filterMap fun i => heldAt prints (w.gridMs i)

theorem Graded.new (tEndMs : Nat) : Graded [] (new tEndMs) :=
  ⟨by simp, rfl, Nat.zero_le _, nofun, fun _ => Nat.zero_le _, rfl⟩

theorem Graded.heldAt_ahead (graded : Graded prints w) (window : settleWindowMs ≤ w.tEndMs)
    (word : w.tEndMs < u64Size) {i : Nat} (ge : w.next ≤ i) (lt : i < gridPoints) :
    heldAt prints (w.gridMs i) = w.held := by
  rw [graded.held]
  refine heldAt_of_all fun p member => ?_
  calc p.1 ≤ w.lastTsMs := graded.stamped p member
    _ ≤ w.gridMs w.next := graded.ahead (by omega)
    _ ≤ w.gridMs i := gridMs_mono window word ge lt

theorem Graded.push (graded : Graded prints w) (window : settleWindowMs ≤ w.tEndMs) (word : w.tEndMs < u64Size)
    (taken : takes w.tEndMs w.lastTsMs p) : Graded (prints ++ [p]) (w.push p.1 p.2).1 := by
  rw [push_of_takes taken]
  simp only [takes, Bool.and_eq_true, decide_eq_true_eq] at taken
  obtain ⟨⟨positive, ordered⟩, inTime⟩ := taken
  have filled := advanceTo_advanced graded.inside p.1
  have grid : ∀ i, SettleWindow.gridMs { w.advanceTo p.1 with lastPx := p.2, lastTsMs := p.1 } i = w.gridMs i := by
    intro i
    simp only [SettleWindow.gridMs, filled.tEndMs]
  have passed : ∀ i < (w.advanceTo p.1).next, w.gridMs i < p.1 := by
    intro i lt
    rcases Nat.lt_or_ge i w.next with old | new
    · exact (graded.passed i old).trans_le ordered
    · exact filled.passed i new lt
  refine ⟨fun q member => ?_, ?_, filled.inside, fun i lt => ?_, fun lt => ?_, ?_⟩
  · rcases mem_append.mp member with old | new
    · exact (graded.stamped q old).trans ordered
    · rw [mem_singleton.mp new]
  · simp [SettleWindow.held, positive]
  · rw [grid]
    exact passed i lt
  · rw [grid]
    exact filled.ahead lt
  simp only [grid]
  -- no second filled so far is as late as the new print
  have same : ∀ i < (w.advanceTo p.1).next, heldAt (prints ++ [p]) (w.gridMs i) = heldAt prints (w.gridMs i) :=
    fun i lt => heldAt_concat_of_lt (passed i lt)
  refine filled.samples _ (fun i ge lt => ?_) ?_
  · rw [same i lt]
    exact graded.heldAt_ahead window word ge (lt.trans_le filled.inside)
  · rw [graded.samples]
    refine filterMap_congr fun i member => (same i ?_).symm
    exact (mem_range.mp member).trans_le filled.onward

theorem Graded.finish (graded : Graded prints w) (window : settleWindowMs ≤ w.tEndMs) (word : w.tEndMs < u64Max) :
    w.finish.samples = sampleAndHold w.tEndMs prints ∧ w.finish.next = gridPoints := by
  have word' : w.tEndMs < u64Size := word.trans (by decide)
  have filled := advanceTo_advanced graded.inside ((w.tEndMs + 1) % u64Size)
  have whole : w.finish.next = gridPoints := by
    by_contra ne
    have lt : w.finish.next < gridPoints := Nat.lt_of_le_of_ne filled.inside ne
    have late : (w.tEndMs + 1) % u64Size ≤ w.gridMs w.finish.next := filled.ahead lt
    have early := gridMs_le window word' lt
    have next : (w.tEndMs + 1) % u64Size = w.tEndMs + 1 :=
      Nat.mod_eq_of_lt (by simp only [u64Max, u64Size] at word ⊢; omega)
    omega
  refine ⟨?_, whole⟩
  have all := filled.samples (fun i => heldAt prints (w.gridMs i))
    (fun i ge lt => graded.heldAt_ahead window word' ge (lt.trans_le filled.inside)) graded.samples
  change w.finish.samples = (range w.finish.next).filterMap _ at all
  rw [all, whole, sampleAndHold]
  refine filterMap_congr fun i member => ?_
  rw [gridMs_eq window word' (mem_range.mp member)]

theorem finish_finish (inside : w.next ≤ gridPoints) : w.finish.finish = w.finish := by
  have filled := advanceTo_advanced inside ((w.tEndMs + 1) % u64Size)
  have again : w.finish.finish = w.finish.advanceTo ((w.tEndMs + 1) % u64Size) := by
    rw [finish, show w.finish.tEndMs = w.tEndMs from filled.tEndMs]
  rw [again, advanceTo]
  rcases Nat.eq_or_lt_of_le filled.inside with whole | lt
  · rw [show gridPoints - w.finish.next = 0 from Nat.sub_eq_zero_of_le whole.ge, advance]
  obtain ⟨fuel, more⟩ : ∃ fuel, gridPoints - w.finish.next = fuel + 1 :=
    Nat.exists_eq_succ_of_ne_zero (Nat.sub_ne_zero_of_lt lt)
  have same : w.finish.gridMs w.finish.next = w.gridMs w.finish.next := by
    simp only [gridMs, show w.finish.tEndMs = w.tEndMs from filled.tEndMs]
  rw [more, advance, if_neg]
  rw [same]
  exact Nat.not_lt.mpr (filled.ahead lt)

end SettleWindow

open SettleWindow

theorem feed_cons_of_takes {w : SettleWindow} (taken : takes w.tEndMs w.lastTsMs p) (rest : List (Nat × Int)) :
    feed w (p :: rest) = ((feed (w.push p.1 p.2).1 rest).1, p :: (feed (w.push p.1 p.2).1 rest).2) := by
  rw [feed, push_of_takes taken]
  rfl

theorem feed_cons_of_not_takes {w : SettleWindow} (refused : takes w.tEndMs w.lastTsMs p = false)
    (rest : List (Nat × Int)) : feed w (p :: rest) = feed w rest := by
  obtain ⟨why, same⟩ := push_of_not_takes refused
  rw [feed, same]
  rfl

theorem push_stamp {w : SettleWindow} (inside : w.next ≤ gridPoints) (taken : takes w.tEndMs w.lastTsMs p) :
    (w.push p.1 p.2).1.tEndMs = w.tEndMs ∧ (w.push p.1 p.2).1.lastTsMs = p.1 ∧
      (w.push p.1 p.2).1.lastPx = p.2 ∧ (w.push p.1 p.2).1.next ≤ gridPoints := by
  have filled := advanceTo_advanced inside p.1
  rw [push_of_takes taken]
  exact ⟨filled.tEndMs, rfl, rfl, filled.inside⟩

theorem feed_append (w : SettleWindow) (xs ys : List (Nat × Int)) :
    feed w (xs ++ ys) = ((feed (feed w xs).1 ys).1, (feed w xs).2 ++ (feed (feed w xs).1 ys).2) := by
  induction xs generalizing w with
  | nil => rfl
  | cons p rest ih => simp only [cons_append, feed, ih, append_assoc]

theorem feed_accepted {w : SettleWindow} (inside : w.next ≤ gridPoints) (pushes : List (Nat × Int)) :
    (feed w pushes).2 = acceptedFrom w.tEndMs w.lastTsMs pushes ∧ (feed w pushes).1.tEndMs = w.tEndMs ∧
      (feed w pushes).1.next ≤ gridPoints := by
  induction pushes generalizing w with
  | nil => exact ⟨rfl, rfl, inside⟩
  | cons p rest ih =>
    rw [acceptedFrom]
    cases taken : takes w.tEndMs w.lastTsMs p with
    | true =>
      obtain ⟨expiry, stamp, -, inside'⟩ := push_stamp inside taken
      obtain ⟨accepted, expiry', inside''⟩ := ih inside'
      rw [feed_cons_of_takes taken, if_pos rfl, accepted, expiry, stamp]
      exact ⟨rfl, expiry'.trans expiry, inside''⟩
    | false =>
      rw [feed_cons_of_not_takes taken, if_neg (by simp)]
      exact ih inside

theorem feed_graded {w : SettleWindow} {prints : List (Nat × Int)} (graded : Graded prints w)
    (window : settleWindowMs ≤ w.tEndMs) (word : w.tEndMs < u64Size) (pushes : List (Nat × Int)) :
    Graded (prints ++ (feed w pushes).2) (feed w pushes).1 := by
  induction pushes generalizing w prints with
  | nil => simpa [feed] using graded
  | cons p rest ih =>
    cases taken : takes w.tEndMs w.lastTsMs p with
    | true =>
      obtain ⟨expiry, -, -, -⟩ := push_stamp graded.inside taken
      have later := ih (graded.push window word taken) (expiry ▸ window) (expiry ▸ word)
      rw [feed_cons_of_takes taken]
      simpa using later
    | false =>
      rw [feed_cons_of_not_takes taken]
      exact ih graded window word

theorem acceptedFrom_later {tEndMs s t : Nat} (le : s ≤ t) {pushes : List (Nat × Int)}
    (later : ∀ p ∈ acceptedFrom tEndMs s pushes, t ≤ p.1) : acceptedFrom tEndMs t pushes = acceptedFrom tEndMs s pushes := by
  induction pushes with
  | nil => rfl
  | cons p rest ih =>
    rw [acceptedFrom] at later ⊢
    rw [acceptedFrom]
    by_cases taken : takes tEndMs s p = true
    · rw [if_pos taken] at later ⊢
      have stamp := later p (by simp)
      rw [if_pos]
      simp only [takes, Bool.and_eq_true, decide_eq_true_eq] at taken ⊢
      exact ⟨⟨taken.1.1, stamp⟩, taken.2⟩
    · rw [if_neg taken] at later ⊢
      rw [if_neg, ih later]
      simp only [takes, Bool.and_eq_true, decide_eq_true_eq] at taken ⊢
      omega

section Expiry

variable {tEndMs : Nat}

theorem new_graded (window : settleWindowMs ≤ tEndMs) (word : tEndMs < u64Max) (pushes : List (Nat × Int)) :
    Graded (feed (new tEndMs) pushes).2 (feed (new tEndMs) pushes).1 ∧
      (feed (new tEndMs) pushes).1.finish.samples = sampleAndHold tEndMs (feed (new tEndMs) pushes).2 := by
  have graded := feed_graded (Graded.new tEndMs) window (word.trans (by decide)) pushes
  have expiry := (feed_accepted (w := new tEndMs) (Nat.zero_le _) pushes).2.1
  rw [nil_append] at graded
  refine ⟨graded, ?_⟩
  have whole := (graded.finish (by rw [expiry]; exact window) (by rw [expiry]; exact word)).1
  rwa [expiry] at whole

theorem finish_repeated (window : settleWindowMs ≤ tEndMs) (word : tEndMs < u64Max) {pushes later : List (Nat × Int)}
    (taken : ((feed (new tEndMs) pushes).1.push p.1 p.2).2 = .ok ())
    (repeats : p.2 = (feed (new tEndMs) pushes).1.lastPx)
    (ordered : ∀ q ∈ (feed (feed (new tEndMs) pushes).1 later).2, p.1 ≤ q.1) :
    (feed (new tEndMs) (pushes ++ p :: later)).1.finish.samples =
      (feed (new tEndMs) (pushes ++ later)).1.finish.samples := by
  rw [(new_graded window word _).2, (new_graded window word _).2, feed_append, feed_append]
  obtain ⟨graded, -⟩ := new_graded window word pushes
  generalize feed (new tEndMs) pushes = fed at *
  have accepts : takes fed.1.tEndMs fed.1.lastTsMs p = true := by
    by_contra refused
    obtain ⟨_, eq⟩ := push_of_not_takes (Bool.eq_false_iff.mpr refused)
    rw [eq] at taken
    cases taken
  obtain ⟨expiry, stamp, -, inside⟩ := push_stamp graded.inside accepts
  have order : 0 < p.2 ∧ fed.1.lastTsMs ≤ p.1 := by
    simp only [takes, Bool.and_eq_true, decide_eq_true_eq] at accepts
    exact accepts.1
  -- the later prints are accepted as without the extra one
  have same : (feed (fed.1.push p.1 p.2).1 later).2 = (feed fed.1 later).2 := by
    rw [(feed_accepted graded.inside later).1] at ordered ⊢
    rw [(feed_accepted inside later).1, expiry, stamp, acceptedFrom_later order.2 ordered]
  rw [feed_cons_of_takes accepts, same]
  unfold sampleAndHold
  refine filterMap_congr fun i _ => heldAt_repeated (fun q member => ?_) ?_ _
  · exact (graded.stamped q member).trans order.2
  · rw [← graded.held, SettleWindow.held, ← repeats, if_pos order.1]

theorem unfilled : (feed (new u64Max) [(0, 5)]).1.finish.samples = [] ∧
    sampleAndHold u64Max (feed (new u64Max) [(0, 5)]).2 ≠ [] := by
  refine ⟨by decide, fun none => ?_⟩
  have first : (5 : Int) ∈ sampleAndHold u64Max (feed (new u64Max) [(0, 5)]).2 :=
    mem_filterMap.mpr ⟨0, mem_range.mpr (by decide), by decide⟩
  rw [none] at first
  cases first

/-- The window samples and holds, refused prints change nothing, closing it again changes nothing and neither does
an extra print of the held price: for every expiry but the last instant a word can name. -/
theorem settleWindow_samples_iff (window : settleWindowMs ≤ tEndMs) (word : tEndMs < u64Size) :
    (∀ pushes : List (Nat × Int),
      let fed := feed (new tEndMs) pushes
      fed.1.finish.samples = sampleAndHold tEndMs fed.2 ∧
      (∀ tsMs px why, (fed.1.push tsMs px).2 = .error why → (fed.1.push tsMs px).1 = fed.1) ∧
      fed.1.finish.finish.samples = fed.1.finish.samples ∧
      ∀ (p : Nat × Int) (later : List (Nat × Int)), (fed.1.push p.1 p.2).2 = .ok () → p.2 = fed.1.lastPx →
        (∀ q ∈ (feed fed.1 later).2, p.1 ≤ q.1) →
        (feed (new tEndMs) (pushes ++ p :: later)).1.finish.samples =
          (feed (new tEndMs) (pushes ++ later)).1.finish.samples) ↔
      tEndMs < u64Max := by
  refine ⟨fun holds => ?_, fun early pushes => ?_⟩
  · by_contra last
    obtain rfl : tEndMs = u64Max := by simp only [u64Max, u64Size] at *; omega
    exact unfilled.2 ((holds [(0, 5)]).1.symm.trans unfilled.1)
  · have inside := (feed_accepted (w := new tEndMs) (Nat.zero_le _) pushes).2.2
    exact ⟨(new_graded window early pushes).2, fun _ _ _ refused => push_refused refused,
      congrArg SettleWindow.samples (finish_finish inside),
      fun p later taken repeats ordered => finish_repeated window early taken repeats ordered⟩

theorem settleWindow_samples_iff_shortest :
    settleWindowMs ≤ 1800000 ∧ 1800000 < u64Size ∧ (feed (new 1800000) [(0, 5), (1000, 7)]).1.finish.samples =
      sampleAndHold 1800000 (feed (new 1800000) [(0, 5), (1000, 7)]).2 :=
  ⟨by decide, by decide,
    ((settleWindow_samples_iff (by decide) (by decide)).mpr (by decide) [(0, 5), (1000, 7)]).1⟩

/-- The window that ends at the last instant a word can name loses the price it holds. -/
theorem settleWindow_word_end :
    (feed (new u64Max) [(0, 5)]).1.finish.samples ≠ sampleAndHold u64Max (feed (new u64Max) [(0, 5)]).2 :=
  fun same => unfilled.2 (same.symm.trans unfilled.1)

end Expiry

end TradingEngine.Settle
