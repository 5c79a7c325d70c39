import TradingEngine.Base.Windowed
import TradingEngine.Net.WsFrameCodec
import TradingEngine.Net.WsFramer

/-!
# The framer does not see how the stream was cut

The framer is a windowed reader: what it hands out, what it echoes and how it fails is what the reader takes off the
whole stream.
-/

namespace TradingEngine.Net

open Base (Look Stable Reached Ended decodeAll run run_append Along)
open List

variable {n : Nat} {g : WsFramer} {why : WsErr}

/-! ### The windows -/

namespace IoBuf

structure Ok (b : IoBuf) : Prop where
  ordered : b.head ≤ b.tail
  inside : b.tail ≤ b.data.length

variable {b : IoBuf}

theorem ok_withCapacity (cap : Nat) : (withCapacity cap).Ok := ⟨le_refl _, Nat.zero_le _⟩

theorem Ok.filled_length (ok : b.Ok) : b.filled.length = b.len := by
  have := ok.inside
  rw [filled, slice, length_drop, length_take, len]
  omega

theorem Ok.len_le (ok : b.Ok) : b.len ≤ b.data.length := by
  have := ok.inside
  rw [len]
  omega

theorem Ok.consume (ok : b.Ok) (room : n ≤ b.len) :
    (b.consume n).Ok ∧ (b.consume n).filled = b.filled.drop n ∧ (b.consume n).data.length = b.data.length := by
  have := ok.ordered
  have := ok.inside
  rw [len] at room
  by_cases whole : b.head + n = b.tail
  · rw [IoBuf.consume, if_pos whole]
    refine ⟨⟨le_refl _, Nat.zero_le _⟩, ?_, rfl⟩
    rw [filled, filled, slice, slice, drop_drop, whole, take_zero, drop_nil]
    exact (drop_eq_nil_of_le (length_take_le _ _)).symm
  · rw [IoBuf.consume, if_neg whole]
    refine ⟨⟨by simp only; omega, ok.inside⟩, ?_, rfl⟩
    rw [filled, filled, slice, slice, drop_drop]

theorem Ok.freeMut (ok : b.Ok) : b.freeMut.Ok ∧ b.freeMut.filled = b.filled ∧
    b.freeMut.data.length = b.data.length ∧ (b.len < b.data.length → 0 < b.freeMut.free.length) := by
  have := ok.ordered
  have := ok.inside
  by_cases pinned : b.tail = b.data.length ∧ 0 < b.head
  · obtain ⟨size, tail⟩ := Nat.exists_eq_add_of_le ok.ordered
    have room : b.head + size ≤ b.data.length := by omega
    have moved := copyWithin_take (Nat.zero_le b.head) room
    have kept := copyWithin_length (Nat.zero_le b.head) room
    rw [Nat.zero_add, take_zero, nil_append] at moved
    rw [IoBuf.freeMut, if_pos pinned, tail, Nat.add_sub_cancel_left]
    refine ⟨⟨Nat.zero_le _, by simp only [kept]; omega⟩, ?_, kept, fun _ => ?_⟩
    · rw [filled, filled, tail, slice, drop_zero, moved]
    · rw [free, length_drop, kept]
      simp only
      omega
  · rw [IoBuf.freeMut, if_neg pinned]
    refine ⟨ok, rfl, rfl, fun short => ?_⟩
    rw [free, length_drop]
    rw [len] at short
    omega

theorem Ok.written (ok : b.Ok) (bytes rest : List Byte) (fill : (bytes ++ rest).length = b.free.length) :
    ((b.setFree (bytes ++ rest)).advance bytes.length).Ok ∧
      ((b.setFree (bytes ++ rest)).advance bytes.length).filled = b.filled ++ bytes ∧
      ((b.setFree (bytes ++ rest)).advance bytes.length).data.length = b.data.length := by
  have ordered := ok.ordered
  have inside := ok.inside
  have front : (b.data.take b.tail).length = b.tail := length_take_of_le inside
  rw [free, length_drop] at fill
  have whole : (b.data.take b.tail ++ (bytes ++ rest)).length = b.data.length := by
    rw [length_append, front, fill]
    omega
  rw [length_append] at fill
  refine ⟨⟨?_, ?_⟩, ?_, whole⟩
  · simp only [setFree, advance]
    omega
  · simp only [setFree, advance, whole]
    omega
  · simp only [setFree, advance, filled, slice]
    rw [← append_assoc, take_left' (by rw [length_append, front]), drop_append_of_le_length (by rw [front]; exact ordered)]

end IoBuf

/-! ### The framer as a windowed reader -/

/-- What the framer takes off the stream. -/
inductive Event where
  | message (m : Message)
  | ping (echo : List Byte)
  | pong
  deriving DecidableEq, Repr

def eventOf (header : WsFrameHeader) (size : Nat) (payload : List Byte) : Look Event WsErr :=
  if header.masked then .fail .badFrame
  else match header.opcode with
    | .text => if header.fin then .take size (.message (.text payload)) else .fail .fragmented
    | .binary => if header.fin then .take size (.message (.binary payload)) else .fail .fragmented
    | .continuation => .fail .fragmented
    | .ping => .take size (.ping payload)
    | .pong => .take size .pong
    | .close => .fail .closed

def wsLook (window : List Byte) : Look Event WsErr :=
  match wsReadFrame window with
  | .incomplete => .more
  | .malformed => .fail .badFrame
  | .frame header span => eventOf header span.stop (slice window span.start span.stop)

theorem eventOf_take {header : WsFrameHeader} {size : Nat} {payload : List Byte} {event : Event}
    (taken : eventOf header size payload = .take n event) : n = size := by
  unfold eventOf at taken
  split at taken
  · cases taken
  split at taken
  · split at taken
    · cases taken
      rfl
    · cases taken
  · split at taken
    · cases taken
      rfl
    · cases taken
  · cases taken
  · cases taken
    rfl
  · cases taken
    rfl
  · cases taken

theorem eventOf_ne_more (header : WsFrameHeader) (size : Nat) (payload : List Byte) : eventOf header size payload ≠ .more := by
  obtain ⟨fin, opcode, masked, _, _, _⟩ := header
  cases masked <;> cases fin <;> cases opcode <;> exact fun same => nomatch same

theorem wsLook_stable : Stable wsLook where
  take := by
    intro window n event taken
    unfold wsLook at taken
    cases read : wsReadFrame window with
    | incomplete | malformed => rw [read] at taken; cases taken
    | frame header span =>
      rw [read] at taken
      obtain ⟨behind, forward, inside⟩ := wsReadFrame_frame read
      rw [eventOf_take taken]
      exact ⟨by omega, inside⟩
  longer := by
    intro window more decided
    unfold wsLook at decided ⊢
    cases read : wsReadFrame window with
    | incomplete => rw [read] at decided; exact absurd rfl decided
    | malformed => rw [wsReadFrame_longer more (by simp [read]), read]
    | frame header span =>
      obtain ⟨_, _, inside⟩ := wsReadFrame_frame read
      rw [wsReadFrame_longer more (by simp [read]), read]
      simp only
      rw [slice_append_left inside]

def messages (events : List Event) : List Message :=
  events.filterMap fun
    | .message m => some m
    | _ => none

/-- The pings among the events. -/
def pings (events : List Event) : List (List Byte) :=
  events.filterMap fun
    | .ping echo => some echo
    | _ => none

def echoes (queued : List Queued) : List (List Byte) :=
  queued.filterMap fun q => if q.opcode = .pong then some q.payload else none

def wire (queued : List Queued) : List Byte :=
  queued.flatMap fun q => frameBytes q.opcode q.payload q.mask

theorem messages_append (a b : List Event) : messages (a ++ b) = messages a ++ messages b := filterMap_append

theorem pings_append (a b : List Event) : pings (a ++ b) = pings a ++ pings b := filterMap_append

theorem echoes_append (a b : List Queued) : echoes (a ++ b) = echoes a ++ echoes b := filterMap_append

theorem wire_append (a b : List Queued) : wire (a ++ b) = wire a ++ wire b := flatMap_append

namespace WsFramer

/-- The bytes that wait behind the data frame handed out last. -/
def waiting (f : WsFramer) : List Byte := f.rx.filled.drop f.consumed

/-- The windows are in order; `sent` of the frames queued have left. -/
structure Sound (sent : List Byte) (f : WsFramer) : Prop where
  rx : f.rx.Ok
  tx : f.tx.Ok
  capacity : f.rx.data.length = f.rxCap
  handed : f.consumed ≤ f.rx.len
  wired : sent ++ f.tx.filled = wire f.queued

variable {sent : List Byte} {f : WsFramer}

theorem Sound.waiting_le (sound : f.Sound sent) : f.waiting.length ≤ f.rxCap := by
  rw [waiting, length_drop, sound.rx.filled_length, ← sound.capacity]
  exact (Nat.sub_le _ _).trans sound.rx.len_le

theorem Sound.release (sound : f.Sound sent) : f.release.Sound sent ∧ f.release.rx.filled = f.waiting ∧
    f.release.consumed = 0 ∧ f.release.queued = f.queued ∧ f.release.rxCap = f.rxCap := by
  by_cases none : f.consumed = 0
  · have same : f.release = f := by rw [WsFramer.release, if_neg (not_not.mpr none)]
    rw [same, waiting, none]
    exact ⟨sound, rfl, rfl, rfl, rfl⟩
  · have same : f.release = { f with rx := f.rx.consume f.consumed, consumed := 0 } := by
      rw [WsFramer.release, if_pos none]
    obtain ⟨ok, left, size⟩ := sound.rx.consume sound.handed
    rw [same]
    exact ⟨⟨ok, sound.tx, size.trans sound.capacity, Nat.zero_le _, sound.wired⟩, left, rfl, rfl, rfl⟩

theorem mask_length (ctr : UInt64) : (wsMaskFromCounter ctr).length = 4 := rfl

theorem Sound.queueWith (sound : f.Sound sent) {opcode : WsOpcode} (parts : List (List Byte)) {payload : List Byte}
    {write : List Byte → List Byte → Except WsWriteErr (List Byte × Nat)} (joined : payload = parts.flatten)
    (writes : ∀ dst mask, write dst mask = wsWriteFrameWith dst opcode parts mask) {answer : Except WsErr Unit}
    (queue : f.queueWith opcode payload write = (answer, g)) :
    g.Sound sent ∧ g.rx = f.rx ∧ g.rxCap = f.rxCap ∧ g.consumed = f.consumed ∧
      ((answer = .ok () ∧ ∃ mask, g.queued = f.queued ++ [⟨opcode, payload, mask⟩]) ∨
        (answer = .error .overflow ∧ g.queued = f.queued)) := by
  obtain ⟨ok, same, size, _⟩ := sound.tx.freeMut
  have four := mask_length (f.maskCtr + 1)
  by_cases room : (frameBytes opcode parts.flatten (wsMaskFromCounter (f.maskCtr + 1))).length ≤ f.tx.freeMut.free.length
  · simp only [WsFramer.queueWith, writes, wsWriteFrameWith_eq four room] at queue
    cases queue
    generalize frame : frameBytes opcode parts.flatten (wsMaskFromCounter (f.maskCtr + 1)) = bytes at room ⊢
    obtain ⟨okay, filled, _⟩ := ok.written bytes (f.tx.freeMut.free.drop bytes.length)
      (by rw [length_append, length_drop]; omega)
    refine ⟨⟨sound.rx, okay, sound.capacity, sound.handed, ?_⟩, rfl, rfl, rfl, .inl ⟨rfl, _, rfl⟩⟩
    simp only
    rw [filled, same, ← append_assoc, sound.wired, wire_append, joined, ← frame, wire, wire, flatMap_singleton]
  · simp only [WsFramer.queueWith, writes, wsWriteFrameWith_small four (not_le.mp room)] at queue
    cases queue
    exact ⟨⟨sound.rx, ok, sound.capacity, sound.handed, by rw [same]; exact sound.wired⟩, rfl, rfl, rfl, .inr ⟨rfl, rfl⟩⟩

/-- The framer stands where the windowed reader stands after `stream`. -/
structure Reads (cap : Nat) (stream sent : List Byte) (outs : List Event) (f : WsFramer) : Prop where
  sound : f.Sound sent
  sized : f.rxCap = cap
  reached : Reached wsLook cap .tooLarge stream outs f.waiting
  echoed : echoes f.queued = pings outs

/-- The framer failed as the windowed reader did. -/
structure Over (cap : Nat) (stream sent : List Byte) (outs : List Event) (why : WsErr) (f : WsFramer) : Prop where
  ended : Ended wsLook cap .tooLarge stream outs why
  echoed : echoes f.queued = pings outs
  wired : sent ++ f.tx.filled = wire f.queued
  stuck : why = .tooLarge → wsLook f.rx.filled = .more ∧ f.rx.filled.length = cap ∧ f.rx.filled <:+: stream

variable {cap : Nat} {stream : List Byte} {outs : List Event}

theorem Reads.fits (reads : Reads cap stream sent outs f) : f.waiting.length ≤ cap := reads.sized ▸ reads.sound.waiting_le

theorem Reads.fails (reads : Reads cap stream sent outs f) (looked : wsLook f.waiting = .fail why)
    (own : why ≠ .tooLarge) (tx : g.tx = f.tx) (queued : g.queued = f.queued) : Over cap stream sent outs why g where
  ended := reads.reached.fail wsLook_stable reads.fits looked
  echoed := by rw [queued]; exact reads.echoed
  wired := by rw [tx, queued]; exact reads.sound.wired
  stuck := fun same => absurd same own

theorem Reads.takes (reads : Reads cap stream sent outs f) {event : Event}
    (looked : wsLook f.waiting = .take n event) (sound : g.Sound sent) (size : g.rxCap = f.rxCap)
    (left : g.waiting = f.waiting.drop n) (echo : echoes g.queued = echoes f.queued ++ pings [event]) :
    Reads cap stream sent (outs ++ [event]) g ∧ g.waiting.length < f.waiting.length := by
  obtain ⟨positive, inside⟩ := wsLook_stable.take looked
  refine ⟨⟨sound, size.trans reads.sized, ?_, ?_⟩, ?_⟩
  · rw [left]
    exact reads.reached.take wsLook_stable reads.fits looked
  · rw [echo, reads.echoed, pings_append]
  · rw [left, length_drop]
    omega

def Scanned (cap : Nat) (stream sent : List Byte) (outs : List Event) (before : Nat) : WsNext → WsFramer → Prop
  | .idle, g => ∃ taken, messages taken = [] ∧ Reads cap stream sent (outs ++ taken) g ∧ wsLook g.waiting = .more ∧
      g.waiting.length < cap
  | .text span, g => ∃ taken, messages taken = [.text (g.payload span)] ∧ Reads cap stream sent (outs ++ taken) g ∧
      g.waiting.length < before
  | .binary span, g => ∃ taken, messages taken = [.binary (g.payload span)] ∧ Reads cap stream sent (outs ++ taken) g ∧
      g.waiting.length < before
  | .failed why, g => why = .overflow ∨ ∃ taken, messages taken = [] ∧ Over cap stream sent (outs ++ taken) why g

theorem Scanned.after {event : Event} {before later : Nat} {answer : WsNext}
    (silent : messages [event] = []) (scanned : Scanned cap stream sent (outs ++ [event]) later answer g)
    (fewer : later ≤ before) : Scanned cap stream sent outs before answer g := by
  have lift : ∀ {taken : List Event} {said : List Message}, messages taken = said → messages (event :: taken) = said := by
    intro taken said heard
    rw [← singleton_append, messages_append, silent, heard, nil_append]
  have shift : ∀ taken, outs ++ [event] ++ taken = outs ++ event :: taken := fun taken => by simp
  cases answer with
  | idle =>
    obtain ⟨taken, heard, reads, rest⟩ := scanned
    exact ⟨event :: taken, lift heard, shift taken ▸ reads, rest⟩
  | text span | binary span =>
    obtain ⟨taken, heard, reads, shorter⟩ := scanned
    exact ⟨event :: taken, lift heard, shift taken ▸ reads, shorter.trans_le fewer⟩
  | failed why =>
    obtain full | ⟨taken, heard, gone⟩ := scanned
    · exact .inl full
    · exact .inr ⟨event :: taken, lift heard, shift taken ▸ gone⟩

theorem waiting_fresh (fresh : f.consumed = 0) : f.waiting = f.rx.filled := by
  rw [waiting, fresh, drop_zero]

theorem Sound.consumes (sound : f.Sound sent) (fresh : f.consumed = 0) (inside : n ≤ f.rx.filled.length) :
    Sound sent { f with rx := f.rx.consume n } ∧ waiting { f with rx := f.rx.consume n } = f.waiting.drop n := by
  rw [sound.rx.filled_length] at inside
  obtain ⟨ok, left, size⟩ := sound.rx.consume inside
  refine ⟨⟨ok, sound.tx, size.trans sound.capacity, by simp only [fresh, Nat.zero_le], sound.wired⟩, ?_⟩
  rw [waiting_fresh fresh, waiting_fresh (f := { f with rx := f.rx.consume n }) fresh]
  exact left

theorem Sound.hands (sound : f.Sound sent) (fresh : f.consumed = 0) (inside : n ≤ f.rx.filled.length) :
    Sound sent { f with consumed := n } ∧ waiting { f with consumed := n } = f.waiting.drop n := by
  rw [sound.rx.filled_length] at inside
  refine ⟨⟨sound.rx, sound.tx, sound.capacity, inside, sound.wired⟩, ?_⟩
  rw [waiting_fresh fresh, waiting]

section

variable (reads : Reads cap stream sent outs f)

include reads

theorem Reads.refused {before : Nat}
    (looked : wsLook f.waiting = .fail why) (own : why ≠ .tooLarge) (tx : g.tx = f.tx) (queued : g.queued = f.queued) :
    Scanned cap stream sent outs before (.failed why) g := by
  refine .inr ⟨[], rfl, ?_⟩
  rw [append_nil]
  exact reads.fails looked own tx queued

section

variable (fresh : f.consumed = 0)

include fresh

theorem Reads.handed {m : Message}
    (inside : n ≤ f.rx.filled.length) (looked : wsLook f.waiting = .take n (.message m)) :
    Reads cap stream sent (outs ++ [.message m]) { f with consumed := n } ∧
      (waiting { f with consumed := n }).length < f.waiting.length := by
  obtain ⟨sound, left⟩ := reads.sound.hands fresh inside
  exact reads.takes looked sound rfl left (append_nil _).symm

theorem Reads.skipped (inside : n ≤ f.rx.filled.length) (looked : wsLook f.waiting = .take n .pong) :
    Reads cap stream sent (outs ++ [.pong]) { f with rx := f.rx.consume n } ∧
      (waiting { f with rx := f.rx.consume n }).length < f.waiting.length := by
  obtain ⟨sound, left⟩ := reads.sound.consumes fresh inside
  exact reads.takes looked sound rfl left (append_nil _).symm

theorem Reads.answered {echo : List Byte} {answer : Except WsErr Unit} (inside : n ≤ f.rx.filled.length)
    (looked : wsLook f.waiting = .take n (.ping echo)) (queue : f.queuePong echo = (answer, g)) :
    answer = .error .overflow ∨ answer = .ok () ∧ g.consumed = 0 ∧
      Reads cap stream sent (outs ++ [.ping echo]) { g with rx := g.rx.consume n } ∧
      (waiting { g with rx := g.rx.consume n }).length < f.waiting.length := by
  obtain ⟨sound, rx, size, consumed, ⟨rfl, mask, queued⟩ | ⟨rfl, _⟩⟩ :=
    reads.sound.queueWith [echo] (by simp) (fun _ _ => rfl) queue
  · have still : g.consumed = 0 := consumed.trans fresh
    have same : g.waiting = f.waiting := by rw [waiting, waiting, rx, consumed]
    obtain ⟨sound', left⟩ := sound.consumes still (n := n) (by rw [rx]; exact inside)
    have echoed : echoes g.queued = echoes f.queued ++ pings [.ping echo] := by
      rw [queued, echoes_append]
      rfl
    exact .inr ⟨rfl, still, reads.takes looked sound' size (by rw [left, same]) echoed⟩
  · exact .inl rfl

theorem scan_reads {fuel : Nat} (enough : f.waiting.length < fuel) :
    Scanned cap stream sent outs f.waiting.length (f.scan fuel).1 (f.scan fuel).2 := by
  induction fuel generalizing f outs with
  | zero => exact absurd enough (Nat.not_lt_zero _)
  | succ fuel ih =>
    have window := waiting_fresh fresh
    rw [scan]
    cases read : wsReadFrame f.rx.filled with
    | incomplete =>
      have looked : wsLook f.waiting = .more := by rw [window, wsLook, read]
      have len : f.rx.len = f.waiting.length := by rw [window, reads.sound.rx.filled_length]
      simp only [reads.sized, len]
      by_cases tooLarge : cap ≤ f.waiting.length
      · rw [if_pos tooLarge]
        have whole : f.waiting.length = cap := Nat.le_antisymm reads.fits tooLarge
        refine .inr ⟨[], rfl, ?_⟩
        rw [append_nil]
        refine ⟨reads.reached.stuck wsLook_stable whole looked, reads.echoed, reads.sound.wired, fun _ => ?_⟩
        rw [← window]
        exact ⟨looked, whole, reads.reached.last.isInfix⟩
      · rw [if_neg tooLarge]
        refine ⟨[], rfl, ?_, looked, not_le.mp tooLarge⟩
        rw [append_nil]
        exact reads
    | malformed =>
      have looked : wsLook f.waiting = .fail .badFrame := by rw [window, wsLook, read]
      exact reads.refused looked (by decide) rfl rfl
    | frame header span =>
      obtain ⟨_, _, inside⟩ := wsReadFrame_frame read
      have looked : wsLook f.waiting = eventOf header span.stop (f.payload span) := by rw [window, wsLook, read]; rfl
      simp only
      unfold eventOf at looked
      by_cases masked : header.masked = true
      · rw [if_pos masked] at looked
        rw [if_pos masked]
        exact reads.refused looked (by decide) rfl rfl
      rw [if_neg masked] at looked
      rw [if_neg masked]
      cases kind : header.opcode with
      | continuation | close =>
        rw [kind] at looked
        exact reads.refused looked (by decide) rfl rfl
      | text | binary =>
        simp only [kind] at looked ⊢
        by_cases fin : header.fin = true
        · rw [if_pos fin] at looked
          rw [if_pos fin]
          exact ⟨[.message _], rfl, reads.handed fresh inside looked⟩
        · rw [if_neg fin] at looked
          rw [if_neg fin]
          exact reads.refused looked (by decide) rfl rfl
      | pong =>
        simp only [kind] at looked ⊢
        obtain ⟨next, shorter⟩ := reads.skipped fresh inside looked
        exact (ih next fresh (by omega)).after rfl shorter.le
      | ping =>
        simp only [kind] at looked ⊢
        rcases queue : f.queuePong (f.payload span) with ⟨answer, g⟩
        obtain rfl | ⟨rfl, still, next, shorter⟩ := reads.answered fresh inside looked queue
        · exact .inl rfl
        · exact (ih next still (by omega)).after rfl shorter.le

end

theorem nextFrame_reads : Scanned cap stream sent outs f.waiting.length f.nextFrame.1 f.nextFrame.2 := by
  obtain ⟨sound, same, fresh, queued, size⟩ := reads.sound.release
  have window : f.release.waiting = f.waiting := by rw [waiting_fresh fresh, same]
  have next : Reads cap stream sent outs f.release :=
    ⟨sound, size.trans reads.sized, window ▸ reads.reached, by rw [queued]; exact reads.echoed⟩
  have len : f.release.waiting.length < f.release.rx.len + 1 := by
    rw [waiting_fresh fresh, sound.rx.filled_length]
    exact Nat.lt_succ_self _
  have scanned := scan_reads next fresh len
  rwa [window] at scanned

theorem Reads.receives {chunk : List Byte}
    (room : chunk.length ≤ f.rxFreeMut.rx.free.length) : Reads cap (stream ++ chunk) sent outs (f.receive chunk) := by
  obtain ⟨sound, same, fresh, queued, size⟩ := reads.sound.release
  obtain ⟨ok, kept, length, _⟩ := sound.rx.freeMut
  have region : writeAt f.rxFreeMut.rx.free 0 chunk = chunk ++ f.rxFreeMut.rx.free.drop chunk.length := by
    rw [writeAt, take_zero, nil_append, Nat.zero_add]
  obtain ⟨okay, filled, whole⟩ := ok.written chunk (f.rxFreeMut.rx.free.drop chunk.length)
    (by rw [length_append, length_drop]; exact Nat.add_sub_cancel' room)
  have grown : (f.receive chunk).waiting = f.waiting ++ chunk := by
    rw [waiting_fresh (f := f.receive chunk) fresh, ← same, ← kept, ← filled, ← region]
    rfl
  refine ⟨⟨?_, sound.tx, ?_, ?_, sound.wired⟩, size.trans reads.sized, ?_, ?_⟩
  · rw [← region] at okay
    exact okay
  · rw [← region] at whole
    exact whole.trans (length.trans sound.capacity)
  · exact (le_of_eq fresh).trans (Nat.zero_le _)
  · rw [grown]
    exact reads.reached.feed chunk
  · exact (congrArg echoes queued).trans reads.echoed

theorem Reads.sends (parts : List (List Byte)) :
    Reads cap stream sent outs (f.queueTextWith parts).2 ∧ (f.queueTextWith parts).2.waiting = f.waiting := by
  rcases queue : f.queueTextWith parts with ⟨answer, g⟩
  obtain ⟨sound, rx, size, consumed, frames⟩ := reads.sound.queueWith parts rfl (fun _ _ => rfl) queue
  have same : g.waiting = f.waiting := by rw [waiting, waiting, rx, consumed]
  have silent : echoes g.queued = echoes f.queued := by
    rcases frames with ⟨_, mask, queued⟩ | ⟨_, queued⟩
    · rw [queued, echoes_append]
      exact append_nil _
    · rw [queued]
  exact ⟨⟨sound, size.trans reads.sized, by rw [same]; exact reads.reached, silent.trans reads.echoed⟩, same⟩

theorem Reads.flushes (queued : n ≤ f.tx.len) : Reads cap stream (sent ++ f.tx.filled.take n) outs (f.txConsume n) := by
  obtain ⟨ok, left, _⟩ := reads.sound.tx.consume queued
  refine ⟨⟨reads.sound.rx, ok, reads.sound.capacity, reads.sound.handed, ?_⟩, reads.sized, reads.reached, reads.echoed⟩
  change sent ++ f.tx.filled.take n ++ (f.tx.consume n).filled = wire f.queued
  rw [left, append_assoc, take_append_drop, reads.sound.wired]

end

theorem Over.grows (gone : Over cap stream sent outs why f) (chunk : List Byte) :
    Over cap (stream ++ chunk) sent outs why f where
  ended := gone.ended.feed chunk
  echoed := gone.echoed
  wired := gone.wired
  stuck := fun full => by
    obtain ⟨waits, whole, inside⟩ := gone.stuck full
    exact ⟨waits, whole, inside.trans (prefix_append stream chunk).isInfix⟩

end WsFramer

/-! ### Sessions -/

namespace WsSession

open WsFramer (Reads Over)

/-- A session against the windowed reader; `looked` stands for a look at the window after the last chunk. -/
def Follows (cap : Nat) (stream : List Byte) (looked : Prop) (s : WsSession) : Prop :=
  match s.ended with
  | none => ∃ outs, s.delivered = messages outs ∧ Reads cap stream s.sent outs s.framer ∧
      wsLook s.framer.waiting = .more ∧ (looked → s.framer.waiting.length < cap)
  | some why => why = .overflow ∨ ∃ outs, s.delivered = messages outs ∧ Over cap stream s.sent outs why s.framer

section Steps

variable {cap fuel : Nat} {stream : List Byte} {outs : List Event} {s : WsSession} {looked : Prop}

theorem Follows.weaken {before : Prop} (follows : s.Follows cap stream before) (less : looked → before) :
    s.Follows cap stream looked := by
  unfold Follows at follows ⊢
  cases ended : s.ended with
  | none =>
    rw [ended] at follows
    obtain ⟨outs, heard, reads, waits, room⟩ := follows
    exact ⟨outs, heard, reads, waits, room ∘ less⟩
  | some why =>
    rw [ended] at follows
    exact follows

theorem drainFor_follows (alive : s.ended = none) (heard : s.delivered = messages outs)
    (reads : Reads cap stream s.sent outs s.framer) (enough : s.framer.waiting.length < fuel) :
    (s.drainFor fuel).Follows cap stream True := by
  induction fuel generalizing s outs with
  | zero => exact absurd enough (Nat.not_lt_zero _)
  | succ fuel ih =>
    have scanned := WsFramer.nextFrame_reads reads
    rw [drainFor]
    rcases next : s.framer.nextFrame with ⟨answer, g⟩
    rw [next] at scanned
    simp only at scanned
    cases answer with
    | idle =>
      obtain ⟨taken, silent, reads, waits, room⟩ := scanned
      simp only [Follows, alive]
      exact ⟨outs ++ taken, by rw [messages_append, silent, append_nil, heard], reads, waits, fun _ => room⟩
    | text span | binary span =>
      obtain ⟨taken, said, reads, shorter⟩ := scanned
      refine ih (s := { s with framer := g, delivered := s.delivered ++ [_] }) alive ?_ reads ?_
      · rw [messages_append, said, heard]
      · simp only
        omega
    | failed why =>
      obtain full | ⟨taken, silent, gone⟩ := scanned
      · exact .inl full
      · exact .inr ⟨outs ++ taken, by rw [messages_append, silent, append_nil, heard], gone⟩

theorem stream_cons (t : Traffic) (rest : List Traffic) :
    WsSession.stream (t :: rest) = WsSession.stream [t] ++ WsSession.stream rest := by
  rw [← singleton_append]
  exact flatMap_append

theorem step_follows (follows : s.Follows cap stream looked) {t : Traffic} (fits : s.Fits t) :
    (s.step t).Follows cap (stream ++ WsSession.stream [t]) (looked ∨ ∃ bytes, t = .chunk bytes) := by
  cases ended : s.ended with
  | some why =>
    have same : s.step t = s := by simp only [step, ended]
    simp only [Follows, ended] at follows
    rw [same]
    simp only [Follows, ended]
    obtain full | ⟨outs, heard, gone⟩ := follows
    · exact .inl full
    · exact .inr ⟨outs, heard, gone.grows _⟩
  | none =>
    simp only [Follows, ended] at follows
    obtain ⟨outs, heard, reads, waits, room⟩ := follows
    cases t with
    | chunk bytes =>
      have received := reads.receives fits
      have all : WsSession.stream [Traffic.chunk bytes] = bytes := flatMap_singleton ..
      have enough : (s.framer.receive bytes).waiting.length < (s.framer.receive bytes).rx.len + 1 := by
        have := received.sound.rx.filled_length
        rw [WsFramer.waiting, length_drop]
        omega
      have drained : Follows cap _ True { s with framer := s.framer.receive bytes }.drain :=
        drainFor_follows ended heard received enough
      have same : s.step (.chunk bytes) = { s with framer := s.framer.receive bytes }.drain := by simp only [step, ended]
      rw [all, same]
      exact drained.weaken fun _ => trivial
    | send parts =>
      obtain ⟨sent, same⟩ := reads.sends parts
      simp only [step, Follows, ended, WsSession.stream, flatMap_cons, flatMap_nil, append_nil]
      refine ⟨outs, heard, sent, by rw [same]; exact waits, fun before => ?_⟩
      rw [same]
      exact room (before.resolve_right (by simp))
    | flush n =>
      simp only [step, Follows, ended, WsSession.stream, flatMap_cons, flatMap_nil, append_nil]
      exact ⟨outs, heard, reads.flushes fits, waits, fun before => room (before.resolve_right (by simp))⟩

theorem run_follows (follows : s.Follows cap stream looked) {traffic : List Traffic} (fits : Along step Fits s traffic) :
    (run step s traffic).Follows cap (stream ++ WsSession.stream traffic)
      (looked ∨ ∃ bytes, Traffic.chunk bytes ∈ traffic) := by
  induction traffic generalizing s stream looked with
  | nil => simpa [WsSession.stream, run] using follows
  | cons t rest ih =>
    have next := ih (step_follows follows fits.1) fits.2
    rw [stream_cons, ← append_assoc]
    have each : ((looked ∨ ∃ bytes, t = .chunk bytes) ∨ ∃ bytes, Traffic.chunk bytes ∈ rest) ↔
        (looked ∨ ∃ bytes, Traffic.chunk bytes ∈ t :: rest) := by
      simp only [mem_cons, or_assoc, exists_or, eq_comm]
    rwa [each] at next

end Steps

theorem start_follows (rxCap txCap : Nat) (maskSeed : UInt64) :
    (start rxCap txCap maskSeed).Follows rxCap [] (0 < rxCap) := by
  refine ⟨[], rfl, ⟨⟨IoBuf.ok_withCapacity _, IoBuf.ok_withCapacity _, length_replicate, Nat.zero_le _, rfl⟩, rfl,
    Reached.start [], rfl⟩, rfl, fun room => room⟩

abbrev play (rxCap txCap : Nat) (maskSeed : UInt64) (traffic : List Traffic) : WsSession :=
  run step (start rxCap txCap maskSeed) traffic

/-- Every chunk fits, the window is looked at, and the send window does not overflow. A window of no bytes at all
fails at the first look. -/
structure Plays (rxCap txCap : Nat) (maskSeed : UInt64) (traffic : List Traffic) : Prop where
  fits : Along step Fits (start rxCap txCap maskSeed) traffic
  looked : 0 < rxCap ∨ ∃ bytes, Traffic.chunk bytes ∈ traffic
  room : (play rxCap txCap maskSeed traffic).ended ≠ some .overflow

/-- The events of the whole stream at once, and the failure that ends it. -/
def wholeStream (rxCap : Nat) (stream : List Byte) : List Event × Option WsErr := decodeAll wsLook rxCap .tooLarge stream

/-- The messages, the echoes and the failure of a session are those of the whole stream. -/
structure Whole (rxCap : Nat) (stream : List Byte) (s : WsSession) : Prop where
  delivered : s.delivered = messages (wholeStream rxCap stream).1
  echoed : echoes s.framer.queued = pings (wholeStream rxCap stream).1
  ended : s.ended = (wholeStream rxCap stream).2
  wired : s.sent ++ s.framer.tx.filled = wire s.framer.queued

/-- The window of a session that refused a frame as too large: no frame that starts it fits. -/
structure Refused (rxCap : Nat) (stream window : List Byte) : Prop where
  inside : window <:+: stream
  full : window.length = rxCap
  larger : ∀ {more header span}, wsReadFrame (window ++ more) = .frame header span → rxCap < span.stop

section Plays

variable {rxCap txCap : Nat} {maskSeed : UInt64} {traffic : List Traffic}

theorem Plays.follows (plays : Plays rxCap txCap maskSeed traffic) :
    (play rxCap txCap maskSeed traffic).Follows rxCap (stream traffic) True :=
  (run_follows (start_follows rxCap txCap maskSeed) plays.fits).weaken fun _ => plays.looked

theorem Plays.whole (plays : Plays rxCap txCap maskSeed traffic) :
    Whole rxCap (stream traffic) (play rxCap txCap maskSeed traffic) := by
  have follows := plays.follows
  have room := plays.room
  generalize play rxCap txCap maskSeed traffic = s at follows room ⊢
  unfold Follows at follows
  cases ended : s.ended with
  | none =>
    rw [ended] at follows
    obtain ⟨outs, heard, reads, waits, short⟩ := follows
    have whole : wholeStream rxCap (stream traffic) = (outs, none) := reads.reached.stop wsLook_stable (short trivial) waits
    exact ⟨by rw [whole, heard], by rw [whole, reads.echoed], by rw [whole, ended], reads.sound.wired⟩
  | some why =>
    rw [ended] at follows room
    obtain full | ⟨outs, heard, gone⟩ := follows
    · exact absurd (congrArg some full) room
    · have whole : wholeStream rxCap (stream traffic) = (outs, some why) := gone.ended.stop
      exact ⟨by rw [whole, heard], by rw [whole, gone.echoed], by rw [whole, ended], gone.wired⟩

theorem wsLook_more {window : List Byte} (looked : wsLook window = .more) : wsReadFrame window = .incomplete := by
  unfold wsLook at looked
  cases read : wsReadFrame window with
  | incomplete => rfl
  | malformed =>
    rw [read] at looked
    cases looked
  | frame header span =>
    rw [read] at looked
    exact absurd looked (eventOf_ne_more _ _ _)

theorem Plays.refused (plays : Plays rxCap txCap maskSeed traffic)
    (ended : (play rxCap txCap maskSeed traffic).ended = some .tooLarge) :
    Refused rxCap (stream traffic) (play rxCap txCap maskSeed traffic).framer.rx.filled := by
  have follows := plays.follows
  generalize play rxCap txCap maskSeed traffic = s at follows ended ⊢
  unfold Follows at follows
  rw [ended] at follows
  obtain full | ⟨outs, heard, gone⟩ := follows
  · cases full
  obtain ⟨looked, whole, inside⟩ := gone.stuck rfl
  refine ⟨inside, whole, fun {more header span} read => ?_⟩
  rw [← whole]
  exact wsReadFrame_short (wsLook_more looked) read

theorem Plays.goes_on (plays : Plays rxCap txCap maskSeed traffic) (alive : (play rxCap txCap maskSeed traffic).ended = none) :
    0 < (play rxCap txCap maskSeed traffic).framer.rxFreeMut.rx.free.length := by
  have follows := plays.follows
  generalize play rxCap txCap maskSeed traffic = s at follows alive ⊢
  unfold Follows at follows
  rw [alive] at follows
  obtain ⟨outs, heard, reads, waits, short⟩ := follows
  obtain ⟨sound, same, fresh, queued, cap⟩ := reads.sound.release
  obtain ⟨_, _, _, open_⟩ := sound.rx.freeMut
  refine open_ ?_
  rw [sound.capacity, cap, reads.sized, ← sound.rx.filled_length, same]
  exact short trivial

end Plays

/-- A session hands out, echoes and ends as the whole stream read at once does, so any two cuttings of one stream agree;
it has room for the next byte as long as it goes on, and refuses as too large only what is longer than the window; and
a client frame, its control payloads short, is read back whole before any bytes. -/
theorem framing_ignores_the_cutting :
    (∀ {rxCap txCap : Nat} {maskSeed : UInt64} {traffic : List Traffic}, Plays rxCap txCap maskSeed traffic →
      Whole rxCap (stream traffic) (play rxCap txCap maskSeed traffic) ∧
      (∀ {txCap' : Nat} {maskSeed' : UInt64} {traffic' : List Traffic}, Plays rxCap txCap' maskSeed' traffic' →
        stream traffic' = stream traffic →
          (play rxCap txCap' maskSeed' traffic').delivered = (play rxCap txCap maskSeed traffic).delivered ∧
          echoes (play rxCap txCap' maskSeed' traffic').framer.queued =
            echoes (play rxCap txCap maskSeed traffic).framer.queued ∧
          (play rxCap txCap' maskSeed' traffic').ended = (play rxCap txCap maskSeed traffic).ended) ∧
      ((play rxCap txCap maskSeed traffic).ended = none →
        0 < (play rxCap txCap maskSeed traffic).framer.rxFreeMut.rx.free.length) ∧
      ((play rxCap txCap maskSeed traffic).ended = some .tooLarge →
        Refused rxCap (stream traffic) (play rxCap txCap maskSeed traffic).framer.rx.filled)) ∧
    (∀ {opcode : WsOpcode} {parts : List (List Byte)} {mask dst buf : List Byte} {n : Nat} (rest : List Byte),
      mask.length = 4 → dst.length < 2 ^ 63 → (opcode.isControl = true → parts.flatten.length ≤ 125) →
      wsWriteFrameWith dst opcode parts mask = .ok (buf, n) →
        ∃ header span, wsReadFrame (buf.take n ++ rest) = .frame header span ∧ span.stop = n ∧ header.opcode = opcode ∧
          header.fin = true ∧ header.mask = mask ∧
          wsUnmaskInPlace (slice (buf.take n ++ rest) span.start span.stop) header.mask = parts.flatten) := by
  constructor
  · intro rxCap txCap maskSeed traffic plays
    refine ⟨plays.whole, ?_, plays.goes_on, plays.refused⟩
    intro txCap' maskSeed' traffic' other same
    obtain ⟨delivered, echoed, ended, _⟩ := plays.whole
    obtain ⟨delivered', echoed', ended', _⟩ := other.whole
    rw [delivered, echoed, ended, delivered', echoed', ended', same]
    exact ⟨rfl, rfl, rfl⟩
  · intro opcode parts mask dst buf n rest four inWord brief wrote
    exact wsWriteFrameWith_reads four inWord brief wrote rest

def pingAndText : List Traffic :=
  [.chunk [0x89], .chunk [0x01, 97, 0x81], .flush 3, .chunk [0x02, 104], .chunk [105]]

theorem pingAndText_plays : Plays 16 16 7 pingAndText := ⟨by decide +kernel, .inl (by decide), by decide +kernel⟩

theorem cut_frames_are_whole : (play 16 16 7 pingAndText).delivered = [.text [104, 105]] ∧
    (play 16 16 7 pingAndText).delivered = messages (wholeStream 16 (stream pingAndText)).1 ∧
    ∃ header span, wsReadFrame ([0x81, 0x82, 1, 2, 3, 4, 105, 107] ++ [9]) = .frame header span ∧ span.stop = 8 := by
  refine ⟨by decide +kernel, (framing_ignores_the_cutting.1 pingAndText_plays).1.delivered, ?_⟩
  have wrote : wsWriteFrameWith (replicate 8 0) .text [[104, 105]] [1, 2, 3, 4] =
      .ok ([0x81, 0x82, 1, 2, 3, 4, 105, 107], 8) := by decide +kernel
  obtain ⟨header, span, read, stop, _⟩ := framing_ignores_the_cutting.2 [9] rfl (by decide) (by decide) wrote
  exact ⟨header, span, read, stop⟩

/-- A ping of 126 bytes, which only a debug build stops, is not read back. -/
theorem long_ping_is_not_read : ¬ ∀ (opcode : WsOpcode) (payload mask dst buf rest : List Byte) (n : Nat),
    mask.length = 4 → dst.length < 2 ^ 63 → wsWriteFrame dst opcode payload mask = .ok (buf, n) →
      ∃ header span, wsReadFrame (buf.take n ++ rest) = .frame header span := by
  intro always
  have room : (frameBytes .ping [replicate 126 0].flatten noMask).length ≤ (replicate 134 (0 : Byte)).length := by
    rw [frameBytes_length rfl]
    simp [clientHeaderLen]
  obtain ⟨header, span, read⟩ := always .ping (replicate 126 0) noMask (replicate 134 0) _ [] _ rfl
    (by rw [length_replicate]; norm_num) (wsWriteFrameWith_eq rfl room)
  have refused : wsReadFrame (frameBytes .ping [replicate 126 0].flatten noMask ++ []) = .malformed := by
    decide +kernel
  rw [take_left, refused] at read
  cases read

end WsSession

end TradingEngine.Net
