import TradingEngine.Base.Saturating

/-!
# The dead-man switch

While orders may rest, a cancel-all is kept scheduled at the venue a horizon ahead and pushed forward every period.
-/

namespace TradingEngine.Venue
open Base

def addMs (a b : Nat) : Nat := min (a + b) u64Max

def minLeadMs : Nat := 5000

def maxHorizonMs : Nat := 30000

def maxTriggersPerDay : Nat := 10

def refusalsToPark : Nat := 3

def dayMs : Nat := 86400000

structure DeadManCfg where
  horizonMs : Nat
  rearmMs : Nat
  answerMs : Nat
  skewMs : Nat
  backoffMs : Nat
  maxTriggers : Nat
  deriving DecidableEq, Repr

inductive DeadManErr where
  | period
  | skew
  | horizon
  | triggers
  deriving DecidableEq, Repr

def DeadManCfg.validate (c : DeadManCfg) : Except DeadManErr Unit :=
  if c.rearmMs = 0 ∨ c.answerMs = 0 ∨ c.answerMs > 65535 ∨ c.backoffMs < c.answerMs then .error .period
  else if c.skewMs > minLeadMs then .error .skew
  else if c.horizonMs < addMs (addMs c.rearmMs c.answerMs) minLeadMs ∨ c.horizonMs > maxHorizonMs then .error .horizon
  else if c.maxTriggers = 0 ∨ c.maxTriggers > maxTriggersPerDay then .error .triggers
  else .ok ()

inductive Availability where
  | unknown
  | eligible
  | refused
  | exhausted
  deriving DecidableEq, Repr

structure DeadManCounters where
  arms : Nat := 0
  clears : Nat := 0
  accepted : Nat := 0
  refused : Nat := 0
  rateLimited : Nat := 0
  inDoubt : Nat := 0
  unsent : Nat := 0
  triggers : Nat := 0
  stray : Nat := 0
  deriving DecidableEq, Repr

/-- `deadlineMs = 0`: none held; `inFlightTimeMs = 0`: the post in flight is a clear. -/
structure DeadMan where
  day : Nat := 0
  deadlineMs : Nat := 0
  lastArmMs : Nat := 0
  lastPostMs : Nat := 0
  quietUntilMs : Nat := 0
  armsUntilMs : Nat := 0
  inFlightTimeMs : Nat := 0
  inFlight : Bool := false
  bootClear : Bool := true
  availability : Availability := .unknown
  triggersToday : Nat := 0
  refusals : Nat := 0
  slot : UInt8
  inFlightOid : UInt64 := 0
  cfg : DeadManCfg
  oidBase : UInt64
  seq : UInt64 := 0
  counters : DeadManCounters := {}
  deriving DecidableEq, Repr

/-- The command of a post: a time to cancel all at, or none. -/
structure ScheduleCancel where
  slot : UInt8
  clientOid : UInt64
  timeMs : Nat
  expiresAfterMs : Nat
  tsNs : Nat
  deriving DecidableEq, Repr

structure ExecEvent where
  slot : UInt8
  clientOid : UInt64
  kind : UInt8
  reason : UInt8
  flags : UInt8
  deriving DecidableEq, Repr

def evAck : UInt8 := 1

def evRejected : UInt8 := 5

def evUnanswered : UInt8 := 8

def evfPostItem : UInt8 := (1 : UInt8) <<< 3

def reasonRateLimit : UInt8 := 14

/-- `LOCAL`, `HALTED`, `NOT_READY`, `THROTTLED` and `TRANSPORT`. -/
def neverLeft (reason : UInt8) : Bool := reason == 18 || reason == 17 || reason == 20 || reason == 21 || reason == 15

def ExecEvent.cmdKind (e : ExecEvent) : UInt8 := (e.flags >>> 4) &&& 3

/-- How a post is answered. -/
inductive Verdict where
  | neverLeft
  | ack
  | rateLimit
  | refused
  | doubt
  deriving DecidableEq, Repr

def ExecEvent.verdict (e : ExecEvent) : Verdict :=
  if e.kind = evRejected ∧ neverLeft e.reason = true then .neverLeft
  else if e.kind = evAck then .ack
  else if e.kind = evRejected ∧ e.reason = reasonRateLimit then .rateLimit
  else if e.kind = evRejected then .refused
  else .doubt

namespace DeadMan

def new (cfg : DeadManCfg) (slot : UInt8) (oidBase : UInt64) : Except DeadManErr DeadMan :=
  match cfg.validate with
  | .error err => .error err
  | .ok () => .ok { slot, cfg, oidBase }

variable (d : DeadMan)

def roll (nowMs : Nat) : DeadMan :=
  if nowMs / dayMs = d.day then d
  else
    { d with
      day := nowMs / dayMs
      triggersToday := 0
      refusals := 0
      availability := match d.availability with
        | .refused => .unknown
        | .exhausted => .eligible
        | a => a }

def trigger : DeadMan :=
  { d with
    deadlineMs := 0
    counters := { d.counters with triggers := d.counters.triggers + 1 }
    triggersToday := bump 255 d.triggersToday
    availability := if bump 255 d.triggersToday ≥ d.cfg.maxTriggers then .exhausted else d.availability }

def left (timeMs : Nat) : DeadMan :=
  if timeMs = 0 then { d with counters := { d.counters with clears := d.counters.clears + 1 } }
  else { d with counters := { d.counters with arms := d.counters.arms + 1 } }

/-- Nothing is posted for `waitMs`, then at once. -/
def retry (nowMs waitMs : Nat) : DeadMan :=
  { d with lastArmMs := 0, lastPostMs := 0, quietUntilMs := addMs nowMs waitMs }

/-- The day's roll and a passed deadline, before anything is posted. -/
def ticked (nowMs : Nat) : DeadMan :=
  let d := d.roll nowMs
  if d.deadlineMs ≠ 0 ∧ nowMs ≥ d.deadlineMs then d.trigger else d

def post (nowMs tsNs timeMs : Nat) : Option ScheduleCancel × DeadMan :=
  let oid := d.oidBase + (d.seq + 1)
  (some ⟨d.slot, oid, timeMs, d.cfg.answerMs, tsNs⟩,
    { d with
      lastPostMs := nowMs
      seq := d.seq + 1
      inFlight := true
      inFlightOid := oid
      inFlightTimeMs := timeMs })

def mayArm : Bool := d.availability == .unknown || d.availability == .eligible

def since : Nat := if d.deadlineMs ≠ 0 then d.lastArmMs else d.lastPostMs

def poll (nowMs tsNs : Nat) (want : Bool) : Option ScheduleCancel × DeadMan :=
  let d := d.ticked nowMs
  if d.inFlight = true ∨ nowMs < d.quietUntilMs then (none, d)
  else if d.bootClear = true then d.post nowMs tsNs 0
  else if (want && d.mayArm) = true then
    if nowMs < d.armsUntilMs ∨ nowMs < addMs d.since d.cfg.rearmMs then (none, d)
    else { d with lastArmMs := nowMs }.post nowMs tsNs (addMs nowMs d.cfg.horizonMs)
  else if d.deadlineMs ≠ 0 then d.post nowMs tsNs 0
  else (none, d)

/-- Whether an event is about the post in flight. -/
def concerns (e : ExecEvent) : Bool :=
  d.inFlight && e.slot == d.slot && e.clientOid == d.inFlightOid && (e.flags &&& evfPostItem) != 0 && e.cmdKind == 0

/-- A refused clear leaves what was held; at boot the longest schedule any process sets is taken as held. -/
def clearRefused (nowMs : Nat) : DeadMan :=
  { d with
    deadlineMs := if d.bootClear = true ∧ d.deadlineMs = 0 then addMs nowMs maxHorizonMs else d.deadlineMs
    bootClear := false }.retry nowMs d.cfg.answerMs

/-- The third arm refused in a row parks the switch, the others back off. -/
def armRefused (nowMs : Nat) : DeadMan :=
  let refusals := bump 255 d.refusals
  if refusals ≥ refusalsToPark then { d with refusals, availability := .refused }
  else
    { d with
      refusals
      lastArmMs := 0
      lastPostMs := 0
      armsUntilMs := addMs nowMs (if refusals = 1 then d.cfg.answerMs else d.cfg.backoffMs) }

def judged (e : ExecEvent) (nowMs : Nat) : DeadMan :=
  let timeMs := d.inFlightTimeMs
  let d := { d with inFlight := false }
  match e.verdict with
  | .neverLeft => { d with counters := { d.counters with unsent := d.counters.unsent + 1 } }.retry nowMs d.cfg.answerMs
  | .ack =>
    let d := d.left timeMs
    let d := { d with
      counters := { d.counters with accepted := d.counters.accepted + 1 }
      deadlineMs := timeMs
      bootClear := false }
    if timeMs ≠ 0 then
      { d with refusals := 0, availability := if d.availability = .unknown then .eligible else d.availability }
    else d
  | .rateLimit =>
    let d := d.left timeMs
    { d with counters := { d.counters with rateLimited := d.counters.rateLimited + 1 } }.retry nowMs d.cfg.backoffMs
  | .refused =>
    let d := d.left timeMs
    let d := { d with counters := { d.counters with refused := d.counters.refused + 1 } }
    if timeMs = 0 then d.clearRefused nowMs else d.armRefused nowMs
  | .doubt =>
    let d := d.left timeMs
    let d := { d with
      counters := if e.kind = evUnanswered then { d.counters with inDoubt := d.counters.inDoubt + 1 }
        else { d.counters with stray := d.counters.stray + 1 }
      deadlineMs := max d.deadlineMs timeMs }
    d.retry nowMs (addMs d.cfg.answerMs d.cfg.skewMs)

def onEvent (e : ExecEvent) (nowMs : Nat) : Bool × DeadMan :=
  if d.concerns e = true then (true, d.judged e nowMs) else (false, d)

def unsent (d : DeadMan) (nowMs : Nat) : DeadMan :=
  if d.inFlight = true then
    { d with
      inFlight := false
      counters := { d.counters with unsent := d.counters.unsent + 1 } }.retry nowMs d.cfg.answerMs
  else d

def settled : Bool := !d.bootClear

def quiescent (nowMs : Nat) : Bool := !d.inFlight && (d.deadlineMs == 0 || decide (nowMs ≥ d.deadlineMs))

variable {e : ExecEvent}

theorem inFlight_of_concerns {d : DeadMan} (ours : d.concerns e = true) :
    d.inFlight = true ∧ e.clientOid = d.inFlightOid := by
  unfold concerns at ours
  simp only [Bool.and_eq_true, beq_iff_eq] at ours
  exact ⟨ours.1.1.1.1, ours.1.1.2⟩

variable (nowMs : Nat)

theorem roll_shape : ∃ day triggersToday refusals availability,
    d.roll nowMs = { d with day, triggersToday, refusals, availability } ∧
      (d.mayArm = true → availability = d.availability) := by
  unfold roll
  split
  · exact ⟨d.day, d.triggersToday, d.refusals, d.availability, rfl, fun _ => rfl⟩
  refine ⟨_, _, _, _, rfl, fun may => ?_⟩
  unfold mayArm at may
  cases av : d.availability with
  | unknown | eligible => rfl
  | refused | exhausted =>
    rw [av] at may
    cases may

theorem ticked_shape : ∃ day triggersToday refusals availability counters, d.ticked nowMs = { d with
      day, triggersToday, refusals, availability, counters
      deadlineMs := if d.deadlineMs ≤ nowMs then 0 else d.deadlineMs } := by
  obtain ⟨day, n, k, a, rolled, -⟩ := d.roll_shape nowMs
  unfold ticked
  rw [rolled]
  dsimp only
  by_cases passed : d.deadlineMs ≤ nowMs
  · rw [if_pos passed]
    by_cases none : d.deadlineMs = 0
    · rw [if_neg fun held => held.1 none]
      exact ⟨day, n, k, a, d.counters, by rw [none]⟩
    · rw [if_pos ⟨none, passed⟩]
      exact ⟨_, _, _, _, _, rfl⟩
  · rw [if_neg passed, if_neg fun held => passed held.2]
    exact ⟨day, n, k, a, d.counters, rfl⟩

theorem poll_shape (nowMs tsNs : Nat) (want : Bool) :
    d.poll nowMs tsNs want = (none, d.ticked nowMs) ∨
      ∃ lastArm timeMs, d.inFlight = false ∧ d.quietUntilMs ≤ nowMs ∧ (d.bootClear = true → timeMs = 0) ∧
        d.poll nowMs tsNs want = { d.ticked nowMs with lastArmMs := lastArm }.post nowMs tsNs timeMs := by
  obtain ⟨day, n, k, a, c, shape⟩ := ticked_shape d nowMs
  unfold poll
  dsimp only
  by_cases busy : (d.ticked nowMs).inFlight = true ∨ nowMs < (d.ticked nowMs).quietUntilMs
  · rw [if_pos busy]
    exact .inl rfl
  rw [if_neg busy]
  have idle : d.inFlight = false ∧ d.quietUntilMs ≤ nowMs := by
    rw [shape, not_or, Bool.not_eq_true, Nat.not_lt] at busy
    exact busy
  have boot : (d.ticked nowMs).bootClear = d.bootClear := by rw [shape]
  by_cases booting : (d.ticked nowMs).bootClear = true
  · rw [if_pos booting]
    exact .inr ⟨(d.ticked nowMs).lastArmMs, 0, idle.1, idle.2, fun _ => rfl, rfl⟩
  rw [if_neg booting]
  have booted : ∀ t, d.bootClear = true → t = 0 := fun _ before => absurd (boot.trans before) booting
  split
  · split
    · exact .inl rfl
    · exact .inr ⟨nowMs, _, idle.1, idle.2, booted _, rfl⟩
  · split
    · exact .inr ⟨(d.ticked nowMs).lastArmMs, 0, idle.1, idle.2, booted _, rfl⟩
    · exact .inl rfl

theorem left_shape (timeMs : Nat) : ∃ counters : DeadManCounters,
    d.left timeMs = { d with counters } ∧ counters.triggers = d.counters.triggers := by
  unfold left
  split
  · exact ⟨_, rfl, rfl⟩
  · exact ⟨_, rfl, rfl⟩

theorem armRefused_shape : ∃ refusals availability lastArmMs lastPostMs armsUntilMs,
    d.armRefused nowMs = { d with refusals, availability, lastArmMs, lastPostMs, armsUntilMs } := by
  unfold armRefused
  dsimp only
  split
  · exact ⟨_, _, _, _, _, rfl⟩
  · exact ⟨_, _, _, _, _, rfl⟩

theorem ack_shape (verdict : e.verdict = .ack) :
    ∃ refusals availability, ∃ counters : DeadManCounters, d.judged e nowMs = { d with
        inFlight := false, deadlineMs := d.inFlightTimeMs, bootClear := false
        refusals, availability, counters } ∧ counters.triggers = d.counters.triggers ∧
      (d.mayArm = true → availability = .unknown ∨ availability = .eligible) := by
  unfold judged
  rw [verdict]
  dsimp only
  obtain ⟨c, counted, same⟩ := left_shape { d with inFlight := false } d.inFlightTimeMs
  rw [counted]
  have may : d.mayArm = true → d.availability = .unknown ∨ d.availability = .eligible := by
    intro may
    rwa [mayArm, Bool.or_eq_true, beq_iff_eq, beq_iff_eq] at may
  split
  · refine ⟨_, _, _, rfl, same, fun open_ => ?_⟩
    split
    · exact .inr rfl
    · exact may open_
  · exact ⟨_, _, _, rfl, same, may⟩

theorem judged_ack (verdict : e.verdict = .ack) :
    (d.judged e nowMs).inFlight = false ∧ (d.judged e nowMs).deadlineMs = d.inFlightTimeMs ∧
      (d.judged e nowMs).bootClear = false := by
  obtain ⟨k, a, c, shape, -⟩ := d.ack_shape nowMs verdict
  rw [shape]
  exact ⟨rfl, rfl, rfl⟩

theorem judged_doubt (verdict : e.verdict = .doubt) :
    (d.judged e nowMs).inFlight = false ∧ (d.judged e nowMs).deadlineMs = max d.deadlineMs d.inFlightTimeMs ∧ (d.judged e nowMs).bootClear = d.bootClear ∧
      (d.judged e nowMs).quietUntilMs = addMs nowMs (addMs d.cfg.answerMs d.cfg.skewMs) := by
  unfold judged
  rw [verdict]
  dsimp only
  obtain ⟨c, counted, -⟩ := left_shape { d with inFlight := false } d.inFlightTimeMs
  rw [counted]
  exact ⟨rfl, rfl, rfl, rfl⟩

theorem judged_unapplied (accepted : e.verdict ≠ .ack) (doubted : e.verdict ≠ .doubt) :
    (d.judged e nowMs).inFlight = false ∧ (((d.judged e nowMs).deadlineMs = d.deadlineMs ∧ (d.judged e nowMs).bootClear = d.bootClear ∧
          (e.verdict = .refused → d.inFlightTimeMs ≠ 0)) ∨
        (e.verdict = .refused ∧ d.inFlightTimeMs = 0 ∧ (d.judged e nowMs).bootClear = false ∧
          (d.judged e nowMs).deadlineMs =
            if d.bootClear = true ∧ d.deadlineMs = 0 then addMs nowMs maxHorizonMs else d.deadlineMs)) := by
  unfold judged
  obtain ⟨c, counted, -⟩ := left_shape { d with inFlight := false } d.inFlightTimeMs
  cases verdict : e.verdict with
  | ack => exact absurd verdict accepted
  | doubt => exact absurd verdict doubted
  | neverLeft => exact ⟨rfl, .inl ⟨rfl, rfl, fun other => by cases other⟩⟩
  | rateLimit =>
    dsimp only
    rw [counted]
    exact ⟨rfl, .inl ⟨rfl, rfl, fun other => by cases other⟩⟩
  | refused =>
    dsimp only
    rw [counted]
    by_cases clear : d.inFlightTimeMs = 0
    · rw [if_pos clear]
      exact ⟨rfl, .inr ⟨rfl, clear, rfl, rfl⟩⟩
    rw [if_neg clear]
    obtain ⟨k, a, arm, posted, until_, shape⟩ := armRefused_shape
      { d with inFlight := false, counters := { c with refused := c.refused + 1 } } nowMs
    rw [shape]
    exact ⟨rfl, .inl ⟨rfl, rfl, fun _ => clear⟩⟩

end DeadMan

end TradingEngine.Venue
