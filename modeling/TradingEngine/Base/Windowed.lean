import TradingEngine.Base.Run

/-!
# Reading a stream through a window

A reader looks at the bytes that wait in a window of bounded size: it asks for more, takes some off the front, or
fails.
-/

namespace TradingEngine.Base

open List

variable {β ω ε : Type*}

/-- What a look at the window decides. -/
inductive Look (ω ε : Type*) where
  | more
  | take (n : Nat) (out : ω)
  | fail (why : ε)

structure Stable (look : List β → Look ω ε) : Prop where
  take : ∀ {w n out}, look w = .take n out → 0 < n ∧ n ≤ w.length
  longer : ∀ {w} (more : List β), look w ≠ .more → look (w ++ more) = look w

def decode (look : List β → Look ω ε) (cap : Nat) (full : ε) : Nat → List β → List ω × Option ε
  | 0, _ => ([], none)
  | fuel + 1, stream =>
    match look (stream.take cap) with
    | .more => ([], if cap ≤ stream.length then some full else none)
    | .take n out =>
      let rest := decode look cap full fuel (stream.drop n)
      (out :: rest.1, rest.2)
    | .fail why => ([], some why)

variable {look : List β → Look ω ε} {cap : Nat} {full : ε}

theorem decode_fuel (stable : Stable look) {stream : List β} {fuel more : Nat} (enough : stream.length < fuel)
    (enough' : stream.length < more) : decode look cap full fuel stream = decode look cap full more stream := by
  induction fuel generalizing stream more with
  | zero => omega
  | succ fuel ih =>
    obtain ⟨more, rfl⟩ := Nat.exists_eq_succ_of_ne_zero (show more ≠ 0 by omega)
    rw [decode, decode]
    cases looked : look (stream.take cap) with
    | more => rfl
    | fail why => rfl
    | take n out =>
      obtain ⟨positive, inside⟩ := stable.take looked
      have shorter : (stream.drop n).length < stream.length := by
        rw [length_take] at inside
        rw [length_drop]
        omega
      simp only
      rw [ih (by omega : (stream.drop n).length < fuel) (by omega : (stream.drop n).length < more)]

def decodeAll (look : List β → Look ω ε) (cap : Nat) (full : ε) (stream : List β) : List ω × Option ε :=
  decode look cap full (stream.length + 1) stream

theorem decodeAll_eq (stable : Stable look) (stream : List β) : decodeAll look cap full stream =
    match look (stream.take cap) with
    | .more => ([], if cap ≤ stream.length then some full else none)
    | .take n out => (out :: (decodeAll look cap full (stream.drop n)).1, (decodeAll look cap full (stream.drop n)).2)
    | .fail why => ([], some why) := by
  unfold decodeAll
  rw [decode]
  cases looked : look (stream.take cap) with
  | more => rfl
  | fail why => rfl
  | take n out =>
    obtain ⟨positive, inside⟩ := stable.take looked
    rw [length_take] at inside
    simp only
    rw [decode_fuel stable (by rw [length_drop]; omega) (Nat.lt_succ_self (stream.drop n).length)]

section Window

variable {window later : List β}

section

variable (stable : Stable look)

include stable

theorem look_window (fits : window.length ≤ cap) (decided : look window ≠ .more) :
    look ((window ++ later).take cap) = look window := by
  rw [take_append, take_of_length_le fits]
  exact stable.longer _ decided

theorem decodeAll_take (fits : window.length ≤ cap) {n : Nat} {out : ω}
    (looked : look window = .take n out) : decodeAll look cap full (window ++ later) =
      (out :: (decodeAll look cap full (window.drop n ++ later)).1, (decodeAll look cap full (window.drop n ++ later)).2) := by
  obtain ⟨_, inside⟩ := stable.take looked
  rw [← drop_append_of_le_length inside, decodeAll_eq stable, look_window stable fits (by simp [looked]), looked]

theorem decodeAll_fail (fits : window.length ≤ cap) {why : ε} (looked : look window = .fail why) :
    decodeAll look cap full (window ++ later) = ([], some why) := by
  rw [decodeAll_eq stable, look_window stable fits (by simp [looked]), looked]

theorem decodeAll_full (fits : window.length = cap) (looked : look window = .more) :
    decodeAll look cap full (window ++ later) = ([], some full) := by
  rw [decodeAll_eq stable, take_append, ← fits, take_length, Nat.sub_self, take_zero, append_nil, looked]
  simp

theorem decodeAll_more (room : window.length < cap) (looked : look window = .more) :
    decodeAll look cap full window = ([], none) := by
  rw [decodeAll_eq stable, take_of_length_le room.le, looked]
  simp [not_le.mpr room]

end

end Window

/-- After the bytes `stream` the reader has taken `outs` and looks at `window`. -/
structure Reached (look : List β → Look ω ε) (cap : Nat) (full : ε) (stream : List β) (outs : List ω) (window : List β) :
    Prop where
  last : window <:+ stream
  decodes : ∀ later, decodeAll look cap full (stream ++ later) =
    (outs ++ (decodeAll look cap full (window ++ later)).1, (decodeAll look cap full (window ++ later)).2)

def Ended (look : List β → Look ω ε) (cap : Nat) (full : ε) (stream : List β) (outs : List ω) (why : ε) : Prop :=
  ∀ later, decodeAll look cap full (stream ++ later) = (outs, some why)

section Reader

variable {stream window : List β} {outs : List ω}

theorem Reached.start (stream : List β) : Reached look cap full stream [] stream := ⟨suffix_rfl, fun _ => rfl⟩

theorem Reached.feed (reached : Reached look cap full stream outs window) (chunk : List β) :
    Reached look cap full (stream ++ chunk) outs (window ++ chunk) := by
  obtain ⟨front, split⟩ := reached.last
  refine ⟨⟨front, by rw [← append_assoc, split]⟩, fun later => ?_⟩
  rw [append_assoc, append_assoc]
  exact reached.decodes (chunk ++ later)

section

variable (stable : Stable look)

include stable

theorem Reached.take (reached : Reached look cap full stream outs window)
    (fits : window.length ≤ cap) {n : Nat} {out : ω} (looked : look window = .take n out) :
    Reached look cap full stream (outs ++ [out]) (window.drop n) := by
  refine ⟨(drop_suffix n window).trans reached.last, fun later => ?_⟩
  rw [reached.decodes later, decodeAll_take stable fits looked, append_assoc, singleton_append]

theorem Reached.fail (reached : Reached look cap full stream outs window)
    (fits : window.length ≤ cap) {why : ε} (looked : look window = .fail why) : Ended look cap full stream outs why := by
  intro later
  rw [reached.decodes later, decodeAll_fail stable fits looked, append_nil]

theorem Reached.stuck (reached : Reached look cap full stream outs window)
    (fits : window.length = cap) (looked : look window = .more) : Ended look cap full stream outs full := by
  intro later
  rw [reached.decodes later, decodeAll_full stable fits looked, append_nil]

theorem Reached.stop (reached : Reached look cap full stream outs window)
    (room : window.length < cap) (looked : look window = .more) : decodeAll look cap full stream = (outs, none) := by
  have whole := reached.decodes []
  rwa [append_nil, append_nil, decodeAll_more stable room looked, append_nil] at whole

end

theorem Ended.feed {why : ε} (ended : Ended look cap full stream outs why) (chunk : List β) :
    Ended look cap full (stream ++ chunk) outs why := by
  intro later
  rw [append_assoc]
  exact ended (chunk ++ later)

theorem Ended.stop {why : ε} (ended : Ended look cap full stream outs why) :
    decodeAll look cap full stream = (outs, some why) := by
  have whole := ended []
  rwa [append_nil] at whole

end Reader

end TradingEngine.Base
