import TradingEngine.Base.Run
import TradingEngine.Venue.DeadMan

/-!
# The pace of a healthy dead-man switch

A switch that is polled every millisecond and whose posts are all acknowledged in time.
-/

namespace TradingEngine.Venue
open Base DeadMan

inductive SwitchAct where
  | poll (nowMs tsNs : Nat) (want : Bool)
  | event (e : ExecEvent) (nowMs : Nat)
  | unsent (nowMs : Nat)
  deriving DecidableEq, Repr

def SwitchAct.nowMs : SwitchAct → Nat
  | .poll nowMs _ _ | .event _ nowMs | .unsent nowMs => nowMs

/-- The switch, the clock, and when it was last polled and last posted. -/
structure Pace where
  switch : DeadMan
  nowMs : Nat
  polledMs : Nat
  postedMs : Nat
  deriving DecidableEq, Repr

namespace Pace

def step (p : Pace) : SwitchAct → Pace
  | .poll nowMs tsNs want =>
    let out := p.switch.poll nowMs tsNs want
    ⟨out.2, nowMs, nowMs, if out.1.isSome = true then nowMs else p.postedMs⟩
  | .event e nowMs => { p with switch := (p.switch.onEvent e nowMs).2, nowMs }
  | .unsent nowMs => { p with switch := p.switch.unsent nowMs, nowMs }

/-- Any call while the boot clear is not answered. -/
def boots (p : Pace) (act : SwitchAct) : Bool := decide (p.nowMs ≤ act.nowMs) && p.switch.bootClear

def bootAcked (p : Pace) (e : ExecEvent) (nowMs : Nat) : Bool :=
  decide (p.nowMs ≤ nowMs) && p.switch.bootClear && p.switch.concerns e && e.verdict == .ack

/-- The healthy run starts here. -/
def afterAck (p : Pace) (e : ExecEvent) (nowMs : Nat) : Pace := ⟨(p.switch.onEvent e nowMs).2, nowMs, nowMs, nowMs⟩

def healthy (p : Pace) (act : SwitchAct) : Bool :=
  decide (p.nowMs ≤ act.nowMs) && decide (act.nowMs ≤ p.polledMs + 1) &&
    (!p.switch.inFlight || decide (act.nowMs ≤ p.postedMs + p.switch.cfg.answerMs)) &&
    match act with
    | .poll _ _ want => want
    | .event e _ => !p.switch.concerns e || e.verdict == .ack
    | .unsent _ => false

end Pace

namespace DeadMan

variable {d : DeadMan} {nowMs : Nat}

theorem ticked_ahead (ahead : d.deadlineMs = 0 ∨ nowMs < d.deadlineMs) : d.ticked nowMs = d.roll nowMs := by
  obtain ⟨day, n, k, a, rolled, -⟩ := d.roll_shape nowMs
  unfold ticked
  rw [rolled]
  dsimp only
  rw [if_neg]
  rintro ⟨some_deadline, passed⟩
  omega

theorem poll_busy (tsNs : Nat) (want : Bool) (ahead : d.deadlineMs = 0 ∨ nowMs < d.deadlineMs) (busy : d.inFlight = true) :
    d.poll nowMs tsNs want = (none, d.roll nowMs) := by
  obtain ⟨day, n, k, a, rolled, -⟩ := d.roll_shape nowMs
  unfold poll
  rw [ticked_ahead ahead, rolled]
  exact if_pos (.inl busy)

theorem poll_idle (tsNs : Nat) (ahead : d.deadlineMs = 0 ∨ nowMs < d.deadlineMs) (idle : d.inFlight = false)
    (quiet : d.quietUntilMs ≤ nowMs) (settled : d.bootClear = false) (may : d.mayArm = true)
    (arms : d.armsUntilMs ≤ nowMs) :
    (nowMs < addMs d.since d.cfg.rearmMs ∧ d.poll nowMs tsNs true = (none, d.roll nowMs)) ∨
      d.poll nowMs tsNs true = { d.roll nowMs with lastArmMs := nowMs }.post nowMs tsNs (addMs nowMs d.cfg.horizonMs) := by
  obtain ⟨day, n, k, a, rolled, open_⟩ := d.roll_shape nowMs
  obtain rfl := open_ may
  unfold poll
  rw [ticked_ahead ahead, rolled]
  dsimp only
  rw [if_neg (by rw [idle]; simp; omega), if_neg (by rw [settled]; simp), if_pos (by rw [Bool.true_and]; exact may)]
  by_cases early : nowMs < addMs d.since d.cfg.rearmMs
  · exact .inl ⟨early, if_pos (.inr early)⟩
  · exact .inr (if_neg (not_or.mpr ⟨Nat.not_lt.mpr arms, early⟩))

theorem judged_open {e : ExecEvent} (clear : d.inFlightTimeMs = 0) (boots : (d.judged e nowMs).bootClear = true) :
    ∃ (c : DeadManCounters) (waitMs : Nat),
      d.judged e nowMs = { d with inFlight := false, counters := c }.retry nowMs waitMs ∧
        c.triggers = d.counters.triggers := by
  revert boots
  unfold judged
  obtain ⟨c, counted, same⟩ := left_shape { d with inFlight := false } d.inFlightTimeMs
  cases e.verdict with
  | neverLeft => exact fun _ => ⟨_, _, rfl, rfl⟩
  | ack =>
    dsimp only
    rw [counted, if_neg fun arm => arm clear]
    exact fun boots => by cases boots
  | rateLimit =>
    dsimp only
    rw [counted]
    exact fun _ => ⟨_, _, rfl, same⟩
  | refused =>
    dsimp only
    rw [counted, if_pos clear]
    exact fun boots => by cases boots
  | doubt =>
    dsimp only
    rw [counted]
    dsimp only
    rw [clear, Nat.max_zero]
    intro _
    refine ⟨_, _, rfl, ?_⟩
    split <;> exact same

end DeadMan

/-- Nothing is held and nothing counted while the boot clear is out. -/
structure Booting (cfg : DeadManCfg) (p : Pace) : Prop where
  same : p.switch.cfg = cfg
  deadline : p.switch.deadlineMs = 0
  unknown : p.switch.availability = .unknown
  arms : p.switch.armsUntilMs = 0
  triggers : p.switch.counters.triggers = 0
  clear : p.switch.inFlight = true → p.switch.inFlightTimeMs = 0 ∧ p.switch.quietUntilMs ≤ p.nowMs

namespace Booting

variable {cfg : DeadManCfg} {p : Pace}

section

variable (booting : Booting cfg p)

include booting

theorem retry {c : DeadManCounters} (same : c.triggers = p.switch.counters.triggers) (nowMs waitMs : Nat) :
    Booting cfg { p with switch := { p.switch with inFlight := false, counters := c }.retry nowMs waitMs, nowMs } :=
  ⟨booting.same, booting.deadline, booting.unknown, booting.arms, same.trans booting.triggers, fun busy => by cases busy⟩

theorem later {nowMs : Nat} (after : p.nowMs ≤ nowMs) : Booting cfg { p with nowMs } :=
  ⟨booting.same, booting.deadline, booting.unknown, booting.arms, booting.triggers,
    fun busy => ⟨(booting.clear busy).1, (booting.clear busy).2.trans after⟩⟩

theorem polled (boots : p.switch.bootClear = true) (tsNs : Nat) (want : Bool) :
    Booting cfg (p.step (.poll p.nowMs tsNs want)) := by
  obtain ⟨day, n, k, a, rolled, same⟩ := p.switch.roll_shape p.nowMs
  obtain rfl := same (by rw [mayArm, booting.unknown]; rfl)
  have ticked : p.switch.ticked p.nowMs = p.switch.roll p.nowMs := ticked_ahead (.inl booting.deadline)
  unfold Pace.step
  dsimp only
  rcases p.switch.poll_shape p.nowMs tsNs want with none | ⟨arm, timeMs, idle, quiet, clear, posts⟩
  · rw [none, ticked, rolled]
    exact ⟨booting.same, booting.deadline, booting.unknown, booting.arms, booting.triggers, booting.clear⟩
  · rw [posts, ticked, rolled]
    exact ⟨booting.same, booting.deadline, booting.unknown, booting.arms, booting.triggers, fun _ => ⟨clear boots, quiet⟩⟩

theorem step {act : SwitchAct} (allowed : p.boots act = true)
    (boots : (p.step act).switch.bootClear = true) : Booting cfg (p.step act) := by
  unfold Pace.boots at allowed
  rw [Bool.and_eq_true, decide_eq_true_iff] at allowed
  obtain ⟨after, before⟩ := allowed
  cases act with
  | poll nowMs tsNs want => exact (booting.later after).polled before tsNs want
  | event e nowMs =>
    unfold Pace.step onEvent at boots ⊢
    dsimp only at boots ⊢
    by_cases ours : p.switch.concerns e = true
    · rw [if_pos ours] at boots ⊢
      obtain ⟨busy, -⟩ := inFlight_of_concerns ours
      obtain ⟨c, waitMs, shape, same⟩ := judged_open (booting.clear busy).1 boots
      rw [shape]
      exact booting.retry same nowMs waitMs
    · rw [if_neg ours]
      exact booting.later after
  | unsent nowMs =>
    unfold Pace.step unsent
    dsimp only
    by_cases busy : p.switch.inFlight = true
    · rw [if_pos busy]
      exact booting.retry (c := { p.switch.counters with unsent := p.switch.counters.unsent + 1 }) rfl nowMs
        p.switch.cfg.answerMs
    · rw [if_neg busy]
      exact booting.later after

end

end Booting

/-- A period and an answer fit the horizon, and so do two answers and a millisecond. -/
structure Roomy (cfg : DeadManCfg) : Prop where
  push : cfg.rearmMs + cfg.answerMs < cfg.horizonMs
  answers : 2 * cfg.answerMs + 1 < cfg.horizonMs

/-- Before a post the last poll came less than a period, or an answer and a millisecond, after the last arm; with one
in flight its answer comes before the deadline held. -/
structure Steady (cfg : DeadManCfg) (p : Pace) : Prop where
  same : p.switch.cfg = cfg
  settled : p.switch.bootClear = false
  may : p.switch.mayArm = true
  arms : p.switch.armsUntilMs = 0
  quiet : p.switch.quietUntilMs ≤ p.nowMs
  triggers : p.switch.counters.triggers = 0
  polled : p.polledMs ≤ p.nowMs ∧ p.nowMs ≤ p.polledMs + 1
  busy : p.switch.inFlight = true →
    p.switch.inFlightTimeMs = p.switch.lastArmMs + cfg.horizonMs ∧ p.postedMs = p.switch.lastArmMs ∧
      p.nowMs ≤ p.switch.lastArmMs + cfg.answerMs ∧
      (p.switch.deadlineMs = 0 ∨ p.switch.lastArmMs + cfg.answerMs < p.switch.deadlineMs)
  idle : p.switch.inFlight = false → p.switch.deadlineMs = 0 ∨
    (p.switch.deadlineMs = p.switch.lastArmMs + cfg.horizonMs ∧
      p.polledMs + 1 ≤ p.switch.lastArmMs + max cfg.rearmMs (cfg.answerMs + 1))

namespace Steady

variable {cfg : DeadManCfg} {p : Pace}

theorem ahead (room : Roomy cfg) (steady : Steady cfg p) {nowMs : Nat} (soon : nowMs ≤ p.polledMs + 1)
    (answer : p.switch.inFlight = true → nowMs ≤ p.postedMs + cfg.answerMs) :
    p.switch.deadlineMs = 0 ∨ nowMs < p.switch.deadlineMs := by
  obtain ⟨push, answers⟩ := room
  cases flying : p.switch.inFlight with
  | true =>
    obtain ⟨-, posted, -, none | later⟩ := steady.busy flying
    · exact .inl none
    · have := answer flying
      omega
  | false =>
    rcases steady.idle flying with none | ⟨deadline, recent⟩
    · exact .inl none
    · omega

theorem later (steady : Steady cfg p) {nowMs : Nat} (after : p.nowMs ≤ nowMs) (soon : nowMs ≤ p.polledMs + 1)
    (answer : p.switch.inFlight = true → nowMs ≤ p.postedMs + cfg.answerMs) : Steady cfg { p with nowMs } := by
  refine ⟨steady.same, steady.settled, steady.may, steady.arms, steady.quiet.trans after, steady.triggers,
    ⟨steady.polled.1.trans after, soon⟩, fun flying => ?_, steady.idle⟩
  obtain ⟨time, posted, -, deadline⟩ := steady.busy flying
  have within := answer flying
  rw [posted] at within
  exact ⟨time, posted, within, deadline⟩

theorem noted (steady : Steady cfg p) (recent : p.switch.inFlight = false → p.switch.deadlineMs = 0 ∨
      p.nowMs + 1 ≤ p.switch.lastArmMs + max cfg.rearmMs (cfg.answerMs + 1)) :
    Steady cfg ⟨p.switch.roll p.nowMs, p.nowMs, p.nowMs, p.postedMs⟩ := by
  obtain ⟨day, n, k, a, rolled, same⟩ := p.switch.roll_shape p.nowMs
  obtain rfl := same steady.may
  rw [rolled]
  refine ⟨steady.same, steady.settled, steady.may, steady.arms, steady.quiet, steady.triggers, ⟨le_rfl, Nat.le_succ _⟩,
    steady.busy, fun idle => ?_⟩
  rcases steady.idle idle with none | ⟨deadline, -⟩
  · exact .inl none
  · rcases recent idle with none | recent
    · exact .inl none
    · exact .inr ⟨deadline, recent⟩

theorem polled_step (room : Roomy cfg) (steady : Steady cfg p) (below : p.nowMs + cfg.horizonMs ≤ u64Max)
    (before : p.switch.deadlineMs = 0 ∨ p.nowMs < p.switch.deadlineMs) (tsNs : Nat) :
    Steady cfg (p.step (.poll p.nowMs tsNs true)) := by
  unfold Pace.step
  dsimp only
  cases flying : p.switch.inFlight with
  | true =>
    rw [poll_busy tsNs true before flying]
    exact steady.noted fun idle => by cases flying.symm.trans idle
  | false =>
    have arms : p.switch.armsUntilMs ≤ p.nowMs := by
      rw [steady.arms]
      exact Nat.zero_le _
    rcases poll_idle tsNs before flying steady.quiet steady.settled steady.may arms with
      ⟨early, waits⟩ | arms
    · rw [waits]
      refine steady.noted fun _ => ?_
      by_cases none : p.switch.deadlineMs = 0
      · exact .inl none
      · right
        rw [DeadMan.since, if_pos none, steady.same, addMs] at early
        omega
    · rw [arms]
      obtain ⟨day, n, k, a, rolled, same⟩ := p.switch.roll_shape p.nowMs
      obtain rfl := same steady.may
      rw [rolled]
      refine ⟨steady.same, steady.settled, steady.may, steady.arms, steady.quiet, steady.triggers,
        ⟨le_rfl, Nat.le_succ _⟩, fun _ => ⟨?_, rfl, Nat.le_add_right .., ?_⟩, fun idle => (by cases idle)⟩
      · rw [steady.same]
        exact Nat.min_eq_left below
      obtain ⟨push, answers⟩ := room
      rcases steady.idle flying with none | ⟨deadline, recent⟩
      · exact .inl none
      right
      have := steady.polled.2
      change p.nowMs + cfg.answerMs < p.switch.deadlineMs
      omega

theorem acked (steady : Steady cfg p) {e : ExecEvent} (flying : p.switch.inFlight = true) (ack : e.verdict = .ack) :
    Steady cfg { p with switch := p.switch.judged e p.nowMs } := by
  obtain ⟨k, a, c, shape, same, may⟩ := p.switch.ack_shape p.nowMs ack
  rw [shape]
  obtain ⟨time, -, within, -⟩ := steady.busy flying
  refine ⟨steady.same, rfl, ?_, steady.arms, steady.quiet, same.trans steady.triggers, steady.polled,
    fun again => (by cases again), fun _ => .inr ⟨time, ?_⟩⟩
  · unfold mayArm
    rcases may steady.may with unknown | eligible
    · rw [unknown]
      rfl
    · rw [eligible]
      rfl
  · have := steady.polled.1
    change p.polledMs + 1 ≤ p.switch.lastArmMs + _
    omega

theorem step (room : Roomy cfg) (steady : Steady cfg p) {act : SwitchAct} (healthy : p.healthy act = true)
    (below : act.nowMs + cfg.horizonMs ≤ u64Max) : Steady cfg (p.step act) := by
  unfold Pace.healthy at healthy
  simp only [Bool.and_eq_true, decide_eq_true_iff] at healthy
  obtain ⟨⟨⟨after, soon⟩, answer⟩, kind⟩ := healthy
  have answered : p.switch.inFlight = true → act.nowMs ≤ p.postedMs + cfg.answerMs := by
    intro flying
    rw [flying, steady.same] at answer
    exact of_decide_eq_true answer
  have now := steady.later after soon answered
  cases act with
  | poll nowMs tsNs want =>
    obtain rfl : want = true := kind
    exact now.polled_step room below (steady.ahead room soon answered) tsNs
  | event e nowMs =>
    unfold Pace.step onEvent
    dsimp only at kind ⊢
    by_cases ours : p.switch.concerns e = true
    · rw [if_pos ours]
      rw [ours] at kind
      obtain ⟨flying, -⟩ := inFlight_of_concerns ours
      exact now.acked flying (beq_iff_eq.mp kind)
    · rw [if_neg ours]
      exact now
  | unsent nowMs => cases kind

end Steady

theorem validate_push {cfg : DeadManCfg} (valid : cfg.validate = .ok ()) : cfg.rearmMs + cfg.answerMs < cfg.horizonMs := by
  unfold DeadManCfg.validate at valid
  split_ifs at valid with period skew horizon triggers
  rw [not_or, addMs, addMs, minLeadMs, maxHorizonMs, u64Max] at horizon
  omega

theorem Booting.acked {cfg : DeadManCfg} {p : Pace} (booting : Booting cfg p) {e : ExecEvent} {nowMs : Nat} (ack : p.bootAcked e nowMs = true) :
    Steady cfg (p.afterAck e nowMs) := by
  unfold Pace.bootAcked at ack
  simp only [Bool.and_eq_true, decide_eq_true_iff, beq_iff_eq] at ack
  obtain ⟨⟨⟨after, -⟩, ours⟩, ack⟩ := ack
  obtain ⟨flying, -⟩ := inFlight_of_concerns ours
  obtain ⟨clear, quiet⟩ := booting.clear flying
  obtain ⟨k, a, c, shape, same, may⟩ := p.switch.ack_shape nowMs ack
  unfold Pace.afterAck onEvent
  rw [if_pos ours, shape]
  refine ⟨booting.same, rfl, ?_, booting.arms, quiet.trans after, same.trans booting.triggers, ⟨le_rfl, Nat.le_succ _⟩,
    fun again => (by cases again), fun _ => .inl clear⟩
  unfold mayArm
  rcases may (by rw [mayArm, booting.unknown]; rfl) with unknown | eligible
  · rw [unknown]
    rfl
  · rw [eligible]
    rfl

/-- If two answers and a millisecond fit the horizon, no deadline passes. -/
theorem deadMan_healthy_never_fires (cfg : DeadManCfg) (slot : UInt8) (oidBase : UInt64) {d : DeadMan}
    (new : DeadMan.new cfg slot oidBase = .ok d) (room : 2 * cfg.answerMs + 1 < cfg.horizonMs)
    (startMs : Nat) (pre : List SwitchAct)
    (boots : Along Pace.step (fun p act => p.boots act = true) ⟨d, startMs, startMs, startMs⟩ pre)
    (e : ExecEvent) (ackMs : Nat) (acked : (run Pace.step ⟨d, startMs, startMs, startMs⟩ pre).bootAcked e ackMs = true)
    (acts : List SwitchAct)
    (healthy : Along Pace.step (fun p act => p.healthy act = true ∧ act.nowMs + cfg.horizonMs ≤ u64Max)
      ((run Pace.step ⟨d, startMs, startMs, startMs⟩ pre).afterAck e ackMs) acts) :
    let p := run Pace.step ((run Pace.step ⟨d, startMs, startMs, startMs⟩ pre).afterAck e ackMs) acts
    p.switch.counters.triggers = 0 ∧ (p.switch.deadlineMs = 0 ∨ p.nowMs < p.switch.deadlineMs) := by
  have valid : cfg.validate = .ok () ∧ d = { slot, cfg, oidBase } := by
    unfold DeadMan.new at new
    split at new
    next err failed => cases new
    next passed => exact ⟨passed, (Except.ok.inj new).symm⟩
  obtain ⟨valid, rfl⟩ := valid
  have roomy : Roomy cfg := ⟨validate_push valid, room⟩
  have booted : Booting cfg (run Pace.step ⟨{ slot, cfg, oidBase }, startMs, startMs, startMs⟩ pre) := by
    refine run_invariant_along (I := fun p => p.switch.bootClear = true → Booting cfg p) (fun _ => ?_) ?_ boots ?_
    · exact ⟨rfl, rfl, rfl, rfl, rfl, fun busy => by cases busy⟩
    · intro p act allowed booting still
      exact (booting ((Bool.and_eq_true _ _).mp allowed).2).step allowed still
    · unfold Pace.bootAcked at acked
      simp only [Bool.and_eq_true] at acked
      exact acked.1.1.2
  have steady := run_invariant_along (I := Steady cfg) (booted.acked acked)
    (fun p act ok steady => steady.step roomy ok.1 ok.2) healthy
  refine ⟨steady.triggers, steady.ahead roomy steady.polled.2 fun flying => ?_⟩
  obtain ⟨-, posted, within, -⟩ := steady.busy flying
  rw [posted]
  exact within

theorem deadMan_default_never_fires :
    (run Pace.step ((run Pace.step
        ⟨{ slot := 6, cfg := ⟨20000, 5000, 5000, 2000, 60000, 10⟩, oidBase := 0 }, 0, 0, 0⟩ [.poll 0 0 true]).afterAck
      ⟨6, 1, evAck, 0, evfPostItem⟩ 4999) [.poll 5000 0 true, .event ⟨6, 2, evAck, 0, evfPostItem⟩ 5001]).switch.counters.triggers
      = 0 :=
  (deadMan_healthy_never_fires ⟨20000, 5000, 5000, 2000, 60000, 10⟩ 6 0 rfl (by decide) 0 [.poll 0 0 true] (by decide)
    ⟨6, 1, evAck, 0, evfPostItem⟩ 4999 (by decide)
    [.poll 5000 0 true, .event ⟨6, 2, evAck, 0, evfPostItem⟩ 5001] (by decide)).1

/-- Polls once a millisecond after `nowMs`; irreducible, for unfolding thousands of them would run the switch. -/
@[irreducible]
def pollsAfter (nowMs n : Nat) : List SwitchAct := (List.range n).map fun i => .poll (nowMs + i + 1) 0 true

theorem pollsAfter_idle (d : DeadMan) (nowMs postedMs n : Nat) (flying : d.inFlight = true) (today : d.day = 0)
    (day : nowMs + n < dayMs) (within : nowMs + n ≤ postedMs + d.cfg.answerMs)
    (ahead : d.deadlineMs = 0 ∨ nowMs + n < d.deadlineMs) :
    Along Pace.step (fun p act => p.healthy act = true) ⟨d, nowMs, nowMs, postedMs⟩ (pollsAfter nowMs n) ∧
      run Pace.step ⟨d, nowMs, nowMs, postedMs⟩ (pollsAfter nowMs n) = ⟨d, nowMs + n, nowMs + n, postedMs⟩ := by
  induction n with
  | zero =>
    unfold pollsAfter
    exact ⟨trivial, rfl⟩
  | succ n ih =>
    obtain ⟨along, same⟩ := ih (by omega) (by omega) (by omega)
    have more : pollsAfter nowMs (n + 1) = pollsAfter nowMs n ++ [.poll (nowMs + n + 1) 0 true] := by
      unfold pollsAfter
      rw [List.range_succ, List.map_append]
      rfl
    have noted : d.poll (nowMs + n + 1) 0 true = (none, d) := by
      rw [poll_busy 0 true (by omega) flying, roll, if_pos]
      rw [today, Nat.div_eq_of_lt (by omega)]
    rw [more, along_concat, run_concat, same]
    refine ⟨⟨along, ?_⟩, ?_⟩
    · unfold Pace.healthy SwitchAct.nowMs
      simp only [flying, Bool.and_eq_true, decide_eq_true_iff, Bool.not_true, Bool.false_or, and_true]
      omega
    · unfold Pace.step
      dsimp only
      rw [noted]
      rfl

/-- The first arm out, and the second with the first deadline held. -/
def firstArm : DeadMan where
  lastArmMs := 1
  lastPostMs := 1
  inFlightTimeMs := 10002
  inFlight := true
  bootClear := false
  slot := 6
  inFlightOid := 2
  cfg := ⟨10001, 1, 5000, 0, 5000, 10⟩
  oidBase := 0
  seq := 2
  counters := { clears := 1, accepted := 1 }

def secondArm : DeadMan :=
  { firstArm with
    deadlineMs := 10002
    lastArmMs := 5002
    lastPostMs := 5002
    inFlightTimeMs := 15003
    availability := .eligible
    inFlightOid := 3
    seq := 3
    counters := { arms := 1, clears := 1, accepted := 2 } }

/-- A period of 1 ms and answers of 5 s: the second answer is due when the first deadline passes. -/
theorem deadMan_fires_while_healthy :
    ¬∀ (cfg : DeadManCfg) (slot : UInt8) (oidBase : UInt64) (d : DeadMan), DeadMan.new cfg slot oidBase = .ok d →
      ∀ (startMs : Nat) (pre : List SwitchAct),
        Along Pace.step (fun p act => p.boots act = true) ⟨d, startMs, startMs, startMs⟩ pre →
        ∀ (e : ExecEvent) (ackMs : Nat), (run Pace.step ⟨d, startMs, startMs, startMs⟩ pre).bootAcked e ackMs = true →
          ∀ acts, Along Pace.step (fun p act => p.healthy act = true)
              ((run Pace.step ⟨d, startMs, startMs, startMs⟩ pre).afterAck e ackMs) acts →
            (run Pace.step ((run Pace.step ⟨d, startMs, startMs, startMs⟩ pre).afterAck e ackMs) acts).switch.counters.triggers
              = 0 := by
  intro all
  have never := all firstArm.cfg 6 0 _ rfl 0 [.poll 0 0 true] (by decide) ⟨6, 1, evAck, 0, evfPostItem⟩ 0 (by decide)
    ([.poll 1 0 true] ++ (pollsAfter 1 5000 ++ ([.event ⟨6, 2, evAck, 0, evfPostItem⟩ 5001, .poll 5002 0 true] ++
      (pollsAfter 5002 4999 ++ [.poll 10002 0 true]))))
  have armed : run Pace.step ((run Pace.step ⟨{ slot := 6, cfg := firstArm.cfg, oidBase := 0 }, 0, 0, 0⟩
      [.poll 0 0 true]).afterAck ⟨6, 1, evAck, 0, evfPostItem⟩ 0) [.poll 1 0 true] = ⟨firstArm, 1, 1, 1⟩ := by decide
  have pushed : run Pace.step ⟨firstArm, 5001, 5001, 1⟩ [.event ⟨6, 2, evAck, 0, evfPostItem⟩ 5001, .poll 5002 0 true] =
      ⟨secondArm, 5002, 5002, 5002⟩ := by decide
  obtain ⟨firstAlong, firstWait⟩ := pollsAfter_idle firstArm 1 1 5000 rfl rfl (by decide) (by decide) (by decide)
  obtain ⟨secondAlong, secondWait⟩ := pollsAfter_idle secondArm 5002 5002 4999 rfl rfl (by decide) (by decide) (by decide)
  rw [along_append, along_append, along_append, along_append, run_append, run_append, run_append, run_append, armed,
    firstWait, pushed, secondWait] at never
  have fired := never ⟨by decide, firstAlong, by decide, secondAlong, by decide⟩
  revert fired
  decide

end TradingEngine.Venue
