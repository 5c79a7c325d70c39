import TradingEngine.Base.Run
import TradingEngine.Venue.DeadMan

/-!
# The dead-man switch against the venue

The venue holds at most one scheduled time.
-/

namespace TradingEngine.Venue
open Base List

structure Flight where
  oid : UInt64
  timeMs : Nat
  applied : Bool
  deriving DecidableEq, Repr

/-- A post in doubt that was not applied so far, and the end of the time in which it may be. -/
structure Doubt where
  timeMs : Nat
  dueMs : Nat
  deriving DecidableEq, Repr

/-- The switch and the venue; `posted` lists the times of all posts, `answered` is set by the first answer to a
clear. -/
structure Watch where
  switch : DeadMan
  nowMs : Nat
  held : Option Nat
  flights : List Flight := []
  doubts : List Doubt := []
  posted : List Nat := []
  answered : Bool := false
  deriving DecidableEq, Repr

inductive WatchAct where
  | poll (nowMs tsNs : Nat) (want : Bool)
  | event (e : ExecEvent) (nowMs : Nat)
  | unsent (nowMs : Nat)
  /-- A post in flight is applied. -/
  | land (i nowMs : Nat)
  /-- A post in doubt is applied. -/
  | late (i nowMs : Nat)
  deriving DecidableEq, Repr

def WatchAct.nowMs : WatchAct → Nat
  | .poll nowMs _ _ | .event _ nowMs | .unsent nowMs | .land _ nowMs | .late _ nowMs => nowMs

/-- What the venue holds once a post is applied: a time, or nothing after a clear. -/
def scheduled (timeMs : Nat) : Option Nat := if timeMs = 0 then none else some timeMs

namespace Watch

def polled (w : Watch) (nowMs tsNs : Nat) (want : Bool) : Watch :=
  let out := w.switch.poll nowMs tsNs want
  match out.1 with
  | none => { w with switch := out.2, nowMs }
  | some cmd =>
    { w with
      switch := out.2
      nowMs
      flights := w.flights ++ [⟨cmd.clientOid, cmd.timeMs, false⟩]
      posted := w.posted ++ [cmd.timeMs] }

def judged (w : Watch) (e : ExecEvent) (nowMs : Nat) : Watch :=
  let out := w.switch.onEvent e nowMs
  match out.1, w.flights.find? fun f => f.oid == e.clientOid with
  | true, some f =>
    { w with
      switch := out.2
      nowMs
      flights := w.flights.erase f
      doubts := if e.verdict = .doubt ∧ f.applied = false
        then ⟨f.timeMs, nowMs + w.switch.cfg.answerMs + w.switch.cfg.skewMs⟩ :: w.doubts else w.doubts
      answered := w.answered || (f.timeMs == 0 && (e.verdict == .ack || e.verdict == .refused)) }
  | _, _ => { w with switch := out.2, nowMs }

def step (w : Watch) : WatchAct → Watch
  | .poll nowMs tsNs want => w.polled nowMs tsNs want
  | .event e nowMs => w.judged e nowMs
  | .unsent nowMs =>
    { w with
      switch := w.switch.unsent nowMs
      nowMs
      flights := if w.switch.inFlight = true then w.flights.dropLast else w.flights }
  | .land i nowMs =>
    { w with
      nowMs
      held := match w.flights[i]? with
        | some f => scheduled f.timeMs
        | none => w.held
      flights := w.flights.modify i fun f => { f with applied := true } }
  | .late i nowMs =>
    { w with
      nowMs
      held := match w.doubts[i]? with
        | some x => scheduled x.timeMs
        | none => w.held
      doubts := w.doubts.eraseIdx i }

/-- The venue's terms: an accepted post was applied, a refused or unsent one never is, and one in doubt at the latest
`slack` ms before its time is over. The clock goes forward and stays `slack` ms below the largest word. -/
def allows (slack : Nat) (w : Watch) (act : WatchAct) : Bool :=
  decide (w.nowMs ≤ act.nowMs) && decide (act.nowMs + slack ≤ u64Max) &&
    match act with
    | .poll _ _ _ => true
    | .event e _ =>
      !w.switch.concerns e || match w.flights.find? fun f => f.oid == e.clientOid with
        | some f => match e.verdict with
          | .ack => f.applied
          | .doubt => true
          | _ => !f.applied
        | none => true
    | .unsent _ => !w.switch.inFlight || match w.flights.getLast? with
        | some f => !f.applied
        | none => true
    | .land i _ => match w.flights[i]? with
        | some f => !f.applied
        | none => false
    | .late i nowMs => match w.doubts[i]? with
        | some x => decide (nowMs + slack ≤ x.dueMs)
        | none => false

/-- The venue holds a time, or a post in doubt may still bring it. -/
def MayHold (slack : Nat) (w : Watch) (t : Nat) : Prop :=
  w.held = some t ∨ ∃ x ∈ w.doubts, x.timeMs = t ∧ t ≠ 0 ∧ w.nowMs + slack ≤ x.dueMs

/-- At most one post is out, nothing is armed before the boot clear is answered, and a settled switch with nothing
out knows a deadline no earlier than any schedule; settled and quiescent, none can fire. -/
structure Covered (slack : Nat) (w : Watch) : Prop where
  single : w.flights.length ≤ 1
  armed : (∃ t ∈ w.posted, t ≠ 0) → w.answered = true
  covers : w.switch.settled = true → w.flights = [] → ∀ t, w.nowMs < t → w.MayHold slack t → t ≤ w.switch.deadlineMs
  silent : w.switch.settled = true → w.switch.quiescent w.nowMs = true → ∀ t, w.nowMs < t → ¬w.MayHold slack t

def booted (d : DeadMan) (startMs : Nat) (heldBefore : Option Nat) : Watch := { switch := d, nowMs := startMs, held := heldBefore }

end Watch

/-- What the switch knows of the venue. Doubts are over while a post is in flight; one that is not over keeps the
switch quiet. -/
structure Kept (startMs : Nat) (w : Watch) : Prop where
  started : startMs ≤ w.nowMs
  idle : w.switch.inFlight = false → w.flights = []
  busy : w.switch.inFlight = true → ∃ applied,
    w.flights = [⟨w.switch.inFlightOid, w.switch.inFlightTimeMs, applied⟩] ∧
      (applied = true → w.held = scheduled w.switch.inFlightTimeMs)
  held : w.switch.bootClear = false → (∀ f ∈ w.flights, f.applied = false) →
    ∀ t, w.nowMs < t → w.held = some t → t ≤ w.switch.deadlineMs
  doubts : ∀ x ∈ w.doubts, x.dueMs ≤ w.nowMs ∨
    (w.switch.inFlight = false ∧ min x.dueMs u64Max ≤ w.switch.quietUntilMs ∧
      (x.timeMs ≤ w.nowMs ∨ (w.switch.bootClear = false ∧ x.timeMs ≤ w.switch.deadlineMs)))
  boot : w.switch.bootClear = true → w.switch.deadlineMs = 0 ∧
    (w.switch.inFlight = true → w.switch.inFlightTimeMs = 0) ∧ (∀ t ∈ w.posted, t = 0) ∧
    ∀ t, w.nowMs < t → w.held = some t → t ≤ addMs startMs maxHorizonMs
  answered : w.answered = !w.switch.bootClear

theorem scheduled_le {timeMs t : Nat} (holds : scheduled timeMs = some t) : t ≤ timeMs := by
  unfold scheduled at holds
  split at holds
  · cases holds
  · exact (Option.some.inj holds).ge

namespace Kept

variable {startMs : Nat} {w : Watch}

theorem start {d : DeadMan} {heldBefore : Option Nat} (new : d.inFlight = false ∧ d.bootClear = true ∧ d.deadlineMs = 0)
    (left : ∀ t, heldBefore = some t → t ≤ addMs startMs maxHorizonMs) :
    Kept startMs (Watch.booted d startMs heldBefore) := by
  obtain ⟨idle, boot, none⟩ := new
  refine ⟨le_rfl, fun _ => rfl, fun busy => ?_, fun settled => ?_, fun x member => ?_, fun _ => ⟨none, ?_, ?_, ?_⟩, ?_⟩
  · cases idle.symm.trans busy
  · cases boot.symm.trans settled
  · cases member
  · exact fun busy => by cases idle.symm.trans busy
  · exact fun t member => by cases member
  · exact fun t _ before => left t before
  · exact (congrArg not boot).symm

section

variable (kept : Kept startMs w)

include kept

theorem later {nowMs : Nat} (after : w.nowMs ≤ nowMs) : Kept startMs { w with nowMs } := by
  refine ⟨kept.started.trans after, kept.idle, kept.busy, ?_, ?_, ?_, kept.answered⟩
  · intro settled unapplied t ahead
    exact kept.held settled unapplied t (after.trans_lt ahead)
  · intro x member
    rcases kept.doubts x member with ended | ⟨idle, quiet, passed | known⟩
    · exact .inl (ended.trans after)
    · exact .inr ⟨idle, quiet, .inl (passed.trans after)⟩
    · exact .inr ⟨idle, quiet, .inr known⟩
  · intro booting
    obtain ⟨none, clear, clears, before⟩ := kept.boot booting
    exact ⟨none, clear, clears, fun t ahead => before t (after.trans_lt ahead)⟩

theorem over_of_busy (busy : w.switch.inFlight = true) : ∀ x ∈ w.doubts, x.dueMs ≤ w.nowMs := by
  intro x member
  rcases kept.doubts x member with ended | ⟨idle, -⟩
  · exact ended
  · cases idle.symm.trans busy

theorem over_of_quiet (below : w.nowMs < u64Max) (quiet : w.switch.quietUntilMs ≤ w.nowMs) :
    ∀ x ∈ w.doubts, x.dueMs ≤ w.nowMs := by
  intro x member
  rcases kept.doubts x member with ended | ⟨-, until_, -⟩
  · exact ended
  · omega

theorem tick : Kept startMs { w with switch := w.switch.ticked w.nowMs } := by
  obtain ⟨day, n, k, a, c, shape⟩ := w.switch.ticked_shape w.nowMs
  rw [shape]
  have deadline : ∀ t, w.nowMs < t → t ≤ w.switch.deadlineMs →
      t ≤ if w.switch.deadlineMs ≤ w.nowMs then 0 else w.switch.deadlineMs := by
    intro t ahead known
    rw [if_neg (by omega)]
    exact known
  refine ⟨kept.started, kept.idle, kept.busy, ?_, ?_, ?_, kept.answered⟩
  · intro settled unapplied t ahead here
    exact deadline t ahead (kept.held settled unapplied t ahead here)
  · intro x member
    rcases kept.doubts x member with ended | ⟨idle, quiet, passed | ⟨settled, known⟩⟩
    · exact .inl ended
    · exact .inr ⟨idle, quiet, .inl passed⟩
    refine .inr ⟨idle, quiet, ?_⟩
    by_cases passed : x.timeMs ≤ w.nowMs
    · exact .inl passed
    · exact .inr ⟨settled, deadline x.timeMs (by omega) known⟩
  · intro booting
    obtain ⟨none, rest⟩ := kept.boot booting
    refine ⟨?_, rest⟩
    dsimp only
    rw [none]
    split <;> rfl

theorem polled (below : w.nowMs < u64Max) (tsNs : Nat) (want : Bool) : Kept startMs (w.polled w.nowMs tsNs want) := by
  unfold Watch.polled
  have ticked := kept.tick
  rcases w.switch.poll_shape w.nowMs tsNs want with quiet | ⟨arm, timeMs, idle, quiet, clear, posts⟩
  · rw [quiet]
    exact ticked
  obtain ⟨day, n, k, a, c, shape⟩ := w.switch.ticked_shape w.nowMs
  rw [posts]
  rw [shape] at ticked ⊢
  have none := kept.idle idle
  refine ⟨kept.started, fun still => ?_, fun _ => ⟨false, ?_, fun applied => ?_⟩, ?_, ?_, ?_, kept.answered⟩
  · cases still
  · dsimp only [DeadMan.post]
    rw [none]
    rfl
  · cases applied
  · intro settled _ t ahead here
    refine ticked.held settled (fun f member => ?_) t ahead here
    dsimp only at member
    rw [none] at member
    cases member
  · exact fun x member => .inl (kept.over_of_quiet below quiet x member)
  · intro booting
    obtain ⟨deadline, -, clears, before⟩ := ticked.boot booting
    refine ⟨deadline, fun _ => clear booting, fun t member => ?_, before⟩
    rcases mem_append.mp member with old | new
    · exact clears t old
    · exact (mem_singleton.mp new).trans (clear booting)

theorem landed {i : Nat} {f : Flight} (here : w.flights[i]? = some f) :
    Kept startMs { w with
      held := scheduled f.timeMs
      flights := w.flights.modify i fun f => { f with applied := true } } := by
  have busy : w.switch.inFlight = true := by
    rw [← Bool.not_eq_false]
    intro idle
    rw [kept.idle idle] at here
    cases here
  obtain ⟨applied, flights, -⟩ := kept.busy busy
  obtain ⟨rfl, rfl⟩ : i = 0 ∧ f = ⟨w.switch.inFlightOid, w.switch.inFlightTimeMs, applied⟩ := by
    rw [flights] at here
    cases i with
    | zero => exact ⟨rfl, (Option.some.inj here).symm⟩
    | succ i => cases here
  rw [flights]
  refine ⟨kept.started, fun idle => ?_, fun _ => ⟨true, rfl, fun _ => rfl⟩, fun _ unapplied => ?_, kept.doubts, ?_,
    kept.answered⟩
  · cases busy.symm.trans idle
  · cases unapplied _ mem_cons_self
  intro booting
  obtain ⟨deadline, clear, clears, -⟩ := kept.boot booting
  refine ⟨deadline, clear, clears, fun t _ here => ?_⟩
  dsimp only at here
  rw [clear busy] at here
  cases here

theorem lateLanded {i : Nat} {x : Doubt} (here : w.doubts[i]? = some x) (due : w.nowMs < x.dueMs) :
    Kept startMs { w with held := scheduled x.timeMs, doubts := w.doubts.eraseIdx i } := by
  have member : x ∈ w.doubts := mem_of_getElem? here
  rcases kept.doubts x member with ended | ⟨idle, -, known⟩
  · omega
  refine ⟨kept.started, kept.idle, fun busy => ?_, fun settled _ t ahead holds => ?_, fun y rest => ?_, fun booting => ?_,
    kept.answered⟩
  · cases idle.symm.trans busy
  · rcases known with passed | ⟨-, known⟩
    · exact absurd ((scheduled_le holds).trans passed) (Nat.not_le.mpr ahead)
    · exact (scheduled_le holds).trans known
  · exact kept.doubts y (mem_of_mem_eraseIdx rest)
  · obtain ⟨deadline, clear, clears, -⟩ := kept.boot booting
    refine ⟨deadline, clear, clears, fun t ahead holds => ?_⟩
    rcases known with passed | ⟨settled, -⟩
    · exact absurd ((scheduled_le holds).trans passed) (Nat.not_le.mpr ahead)
    · cases settled.symm.trans booting

theorem down (busy : w.switch.inFlight = true) {d : DeadMan} {doubts : List Doubt} {answered : Bool}
    (idle : d.inFlight = false)
    (heldKnown : d.bootClear = false → ∀ t, w.nowMs < t → w.held = some t → t ≤ d.deadlineMs)
    (booting : d.bootClear = true → w.switch.bootClear = true ∧ d.deadlineMs = 0)
    (doubtsKnown : ∀ x ∈ doubts, x ∈ w.doubts ∨ (min x.dueMs u64Max ≤ d.quietUntilMs ∧
      (x.timeMs ≤ w.nowMs ∨ (d.bootClear = false ∧ x.timeMs ≤ d.deadlineMs))))
    (first : answered = !d.bootClear) :
    Kept startMs { w with switch := d, flights := [], doubts, answered } := by
  refine ⟨kept.started, fun _ => rfl, fun again => ?_, fun settled _ => heldKnown settled, fun x member => ?_,
    fun boots => ?_, first⟩
  · cases idle.symm.trans again
  · rcases doubtsKnown x member with old | ⟨quiet, known⟩
    · exact .inl (kept.over_of_busy busy x old)
    · exact .inr ⟨idle, quiet, known⟩
  · obtain ⟨before, deadline⟩ := booting boots
    obtain ⟨-, -, clears, left⟩ := kept.boot before
    exact ⟨deadline, fun again => (by cases idle.symm.trans again), clears, left⟩

theorem held_unapplied {oid : UInt64} {timeMs : Nat} (flights : w.flights = [⟨oid, timeMs, false⟩])
    (settled : w.switch.bootClear = false) : ∀ t, w.nowMs < t → w.held = some t → t ≤ w.switch.deadlineMs := by
  refine kept.held settled fun f member => ?_
  rw [flights, mem_singleton] at member
  rw [member]

theorem unsent (unapplied : ∀ f ∈ w.flights, f.applied = false) :
    Kept startMs { w with
      switch := w.switch.unsent w.nowMs
      flights := if w.switch.inFlight = true then w.flights.dropLast else w.flights } := by
  unfold DeadMan.unsent
  by_cases busy : w.switch.inFlight = true
  · rw [if_pos busy, if_pos busy]
    obtain ⟨applied, flights, -⟩ := kept.busy busy
    rw [show w.flights.dropLast = [] by rw [flights]; rfl]
    refine kept.down busy rfl (fun settled => kept.held settled unapplied) (fun boots => ⟨boots, (kept.boot boots).1⟩) ?_
      kept.answered
    exact fun x member => .inl member
  · rw [if_neg busy, if_neg busy]
    exact kept

theorem verdict (busy : w.switch.inFlight = true) {e : ExecEvent} {applied : Bool}
    (flights : w.flights = [⟨w.switch.inFlightOid, w.switch.inFlightTimeMs, applied⟩])
    (landed : applied = true → w.held = scheduled w.switch.inFlightTimeMs)
    (ack : e.verdict = .ack → applied = true) (refused : e.verdict ≠ .ack → e.verdict ≠ .doubt → applied = false) :
    Kept startMs { w with
      switch := w.switch.judged e w.nowMs
      flights := []
      doubts := if e.verdict = .doubt ∧ applied = false
        then ⟨w.switch.inFlightTimeMs, w.nowMs + w.switch.cfg.answerMs + w.switch.cfg.skewMs⟩ :: w.doubts else w.doubts
      answered := w.answered || (w.switch.inFlightTimeMs == 0 && (e.verdict == .ack || e.verdict == .refused)) } := by
  by_cases accepted : e.verdict = .ack
  · obtain ⟨idle, deadline, settled⟩ := w.switch.judged_ack w.nowMs accepted
    refine kept.down busy idle (fun _ t _ holds => ?_) (fun boots => ?_) (fun x member => ?_) ?_
    · rw [deadline]
      exact scheduled_le ((landed (ack accepted)).symm.trans holds)
    · cases settled.symm.trans boots
    · rw [accepted, if_neg fun both => by cases both.1] at member
      exact .inl member
    rw [settled, accepted, kept.answered]
    -- before it was answered every post was a clear
    cases boots : w.switch.bootClear with
    | false => rfl
    | true =>
      rw [(kept.boot boots).2.1 busy]
      rfl
  by_cases doubted : e.verdict = .doubt
  · obtain ⟨idle, deadline, same, quiet⟩ := w.switch.judged_doubt w.nowMs doubted
    refine kept.down busy idle (fun settled t ahead holds => ?_) (fun boots => ?_) (fun x member => ?_) ?_
    · rw [deadline]
      rw [same] at settled
      cases applied with
      | true => exact (scheduled_le ((landed rfl).symm.trans holds)).trans (le_max_right ..)
      | false => exact (kept.held_unapplied flights settled t ahead holds).trans (le_max_left ..)
    · rw [same] at boots
      obtain ⟨none, clear, -⟩ := kept.boot boots
      rw [deadline, none, clear busy]
      exact ⟨boots, rfl⟩
    · by_cases open_ : e.verdict = .doubt ∧ applied = false
      · rw [if_pos open_] at member
        rcases mem_cons.mp member with rfl | old
        · right
          refine ⟨?_, ?_⟩
          · rw [quiet, addMs, addMs]
            dsimp only
            omega
          rw [same, deadline]
          cases boots : w.switch.bootClear with
          | true =>
            left
            dsimp only
            rw [(kept.boot boots).2.1 busy]
            exact Nat.zero_le _
          | false => exact .inr ⟨rfl, le_max_right ..⟩
        · exact .inl old
      · rw [if_neg open_] at member
        exact .inl member
    · rw [same, doubted, kept.answered]
      simp
  · obtain ⟨idle, shape⟩ := w.switch.judged_unapplied w.nowMs accepted doubted
    obtain rfl := refused accepted doubted
    have doubts : ∀ x ∈ (if e.verdict = .doubt ∧ (false : Bool) = false
        then ⟨w.switch.inFlightTimeMs, w.nowMs + w.switch.cfg.answerMs + w.switch.cfg.skewMs⟩ :: w.doubts
        else w.doubts), x ∈ w.doubts := by
      intro x member
      rwa [if_neg fun both => doubted both.1] at member
    rcases shape with ⟨deadline, same, arm⟩ | ⟨verdict, clear, settled, deadline⟩
    · refine kept.down busy idle (fun settled => ?_) (fun boots => ?_) (fun x member => .inl (doubts x member)) ?_
      · rw [deadline]
        exact kept.held_unapplied flights (same.symm.trans settled)
      · rw [same] at boots
        rw [deadline]
        exact ⟨boots, (kept.boot boots).1⟩
      · rw [same, kept.answered]
        by_cases venue : e.verdict = .refused
        · rw [beq_eq_false_iff_ne.mpr (arm venue)]
          simp
        · simp [accepted, venue]
    · refine kept.down busy idle (fun _ t ahead holds => ?_) (fun boots => ?_) (fun x member => .inl (doubts x member)) ?_
      · rw [deadline]
        cases boots : w.switch.bootClear with
        | true =>
          obtain ⟨none, -, -, left⟩ := kept.boot boots
          rw [if_pos ⟨rfl, none⟩]
          have before := left t ahead holds
          have started := kept.started
          unfold addMs at before ⊢
          omega
        | false =>
          rw [if_neg fun both => by cases both.1]
          exact kept.held_unapplied flights boots t ahead holds
      · cases settled.symm.trans boots
      · rw [settled, clear, verdict]
        simp

theorem judged {e : ExecEvent}
    (terms : w.switch.concerns e = true → ∀ f, w.flights.find? (fun f => f.oid == e.clientOid) = some f →
      (e.verdict = .ack → f.applied = true) ∧ (e.verdict ≠ .ack → e.verdict ≠ .doubt → f.applied = false)) :
    Kept startMs (w.judged e w.nowMs) := by
  unfold Watch.judged DeadMan.onEvent
  by_cases ours : w.switch.concerns e = true
  · rw [if_pos ours]
    have busy := DeadMan.inFlight_of_concerns ours
    obtain ⟨applied, flights, landed⟩ := kept.busy busy.1
    have found : w.flights.find? (fun f => f.oid == e.clientOid) =
        some ⟨w.switch.inFlightOid, w.switch.inFlightTimeMs, applied⟩ := by
      rw [flights, busy.2]
      exact find?_cons_of_pos (beq_self_eq_true _)
    obtain ⟨ack, refused⟩ := terms ours _ found
    have kept' := kept.verdict busy.1 (e := e) flights landed ack refused
    dsimp only
    rw [found]
    dsimp only
    rw [show w.flights.erase ⟨w.switch.inFlightOid, w.switch.inFlightTimeMs, applied⟩ = [] by
      rw [flights, erase_cons_head]]
    exact kept'
  · rw [if_neg ours]
    exact kept

theorem step {act : WatchAct} (allowed : w.allows 1 act = true) : Kept startMs (w.step act) := by
  unfold Watch.allows at allowed
  rw [Bool.and_eq_true, Bool.and_eq_true, decide_eq_true_iff, decide_eq_true_iff] at allowed
  obtain ⟨⟨after, below⟩, terms⟩ := allowed
  have now := kept.later after
  cases act with
  | poll nowMs tsNs want => exact now.polled below tsNs want
  | event e nowMs =>
    refine now.judged (e := e) fun ours f found => ?_
    dsimp only at ours found terms
    rw [ours, found] at terms
    dsimp only at terms
    constructor
    · intro ack
      rwa [ack] at terms
    intro accepted doubted
    cases verdict : e.verdict with
    | ack => exact absurd verdict accepted
    | doubt => exact absurd verdict doubted
    | neverLeft | rateLimit | refused =>
      rw [verdict] at terms
      exact Bool.not_eq_true' _ |>.mp terms
  | unsent nowMs =>
    refine now.unsent fun f member => ?_
    dsimp only at member terms
    cases busy : w.switch.inFlight with
    | false =>
      rw [kept.idle busy] at member
      cases member
    | true =>
      obtain ⟨applied, flights, -⟩ := kept.busy busy
      rw [busy, flights] at terms
      rw [flights, mem_singleton] at member
      rw [member]
      exact Bool.not_eq_true' _ |>.mp terms
  | land i nowMs =>
    cases here : w.flights[i]? with
    | none => simp [here] at terms
    | some f => simpa only [Watch.step, here] using! now.landed here
  | late i nowMs =>
    cases here : w.doubts[i]? with
    | none => simp [here] at terms
    | some x =>
      simp only [here] at terms
      simpa only [Watch.step, here] using! now.lateLanded here (of_decide_eq_true terms)

theorem covered : w.Covered 1 := by
  have nothingOut : w.flights = [] → w.switch.inFlight = false := by
    intro none
    rw [← Bool.not_eq_true]
    intro busy
    obtain ⟨applied, flights, -⟩ := kept.busy busy
    cases none.symm.trans flights
  have covers : w.switch.settled = true → w.flights = [] → ∀ t, w.nowMs < t → w.MayHold 1 t → t ≤ w.switch.deadlineMs := by
    intro settled none t ahead may
    have booted : w.switch.bootClear = false := Bool.not_eq_true' _ |>.mp settled
    rcases may with holds | ⟨x, member, rfl, -, open_⟩
    · refine kept.held booted (fun f out => ?_) t ahead holds
      rw [none] at out
      cases out
    · rcases kept.doubts x member with ended | ⟨-, -, passed | ⟨-, known⟩⟩
      · omega
      · omega
      · exact known
  refine ⟨?_, ?_, covers, ?_⟩
  · cases busy : w.switch.inFlight with
    | false =>
      rw [kept.idle busy]
      exact Nat.zero_le 1
    | true =>
      obtain ⟨applied, flights, -⟩ := kept.busy busy
      rw [flights]
      exact le_rfl
  · rintro ⟨t, member, arm⟩
    rw [kept.answered]
    cases boots : w.switch.bootClear with
    | false => rfl
    | true => exact absurd ((kept.boot boots).2.2.1 t member) arm
  · intro settled quiet t ahead may
    unfold DeadMan.quiescent at quiet
    rw [Bool.and_eq_true, Bool.not_eq_true', Bool.or_eq_true, beq_iff_eq, decide_eq_true_iff] at quiet
    have known := covers settled (kept.idle quiet.1) t ahead may
    rcases quiet.2 with none | passed
    · omega
    · omega

end

end Kept

/-- In the last millisecond a clear is applied and acknowledged before the arm in doubt is applied. -/
theorem deadMan_forgets_a_late_arm :
    ¬∀ (cfg : DeadManCfg) (slot : UInt8) (oidBase : UInt64) (d : DeadMan), DeadMan.new cfg slot oidBase = .ok d →
      ∀ (startMs : Nat) (heldBefore : Option Nat), (∀ t, heldBefore = some t → t ≤ addMs startMs maxHorizonMs) →
        ∀ acts, Along Watch.step (fun w act => w.allows 0 act = true) (Watch.booted d startMs heldBefore) acts →
          (run Watch.step (Watch.booted d startMs heldBefore) acts).Covered 0 := by
  intro all
  have covered := all ⟨20000, 5000, 5000, 2000, 60000, 10⟩ 6 0 _ rfl 0 none (fun _ none => by cases none)
    [.poll 0 0 true, .land 0 0, .event ⟨6, 1, evAck, 0, evfPostItem⟩ 0,
      .poll 5000 0 true, .event ⟨6, 2, evUnanswered, 0, evfPostItem⟩ 5000,
      .poll 12000 0 false, .land 0 12000, .event ⟨6, 3, evAck, 0, evfPostItem⟩ 12000, .late 0 12000] (by decide)
  have late := covered.covers (by decide) (by decide) 25000 (by decide) (.inl (by decide))
  revert late
  decide

/-- With posts in doubt applied before their last millisecond, no schedule is forgotten. -/
theorem deadMan_covers_every_schedule (cfg : DeadManCfg) (slot : UInt8) (oidBase : UInt64) {d : DeadMan}
    (new : DeadMan.new cfg slot oidBase = .ok d) {startMs : Nat} {heldBefore : Option Nat}
    (left : ∀ t, heldBefore = some t → t ≤ addMs startMs maxHorizonMs) {acts : List WatchAct}
    (allowed : Along Watch.step (fun w act => w.allows 1 act = true) (Watch.booted d startMs heldBefore) acts) :
    (run Watch.step (Watch.booted d startMs heldBefore) acts).Covered 1 := by
  have fresh : d.inFlight = false ∧ d.bootClear = true ∧ d.deadlineMs = 0 := by
    unfold DeadMan.new at new
    split at new
    · cases new
    · cases new
      exact ⟨rfl, rfl, rfl⟩
  exact (run_invariant_along (Kept.start fresh left) (fun _ _ ok kept => kept.step ok) allowed).covered

theorem deadMan_covers_a_late_arm :
    (run Watch.step (Watch.booted { slot := 6, cfg := ⟨20000, 5000, 5000, 2000, 60000, 10⟩, oidBase := 0 } 0 (some 30000))
      [.poll 0 0 true, .land 0 0, .event ⟨6, 1, evAck, 0, evfPostItem⟩ 0,
        .poll 5000 0 true, .event ⟨6, 2, evUnanswered, 0, evfPostItem⟩ 5000, .late 0 11999,
        .poll 12000 0 false]).Covered 1 :=
  deadMan_covers_every_schedule ⟨20000, 5000, 5000, 2000, 60000, 10⟩ 6 0 rfl
    (fun t left => by cases left; decide) (by decide)

end TradingEngine.Venue
