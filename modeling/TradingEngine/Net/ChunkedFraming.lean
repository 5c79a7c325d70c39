import TradingEngine.Net.Chunked

/-!
# The framing of chunked bodies

A grammar of chunked bodies over a reader of size texts.
-/

namespace TradingEngine.Net

open List Option

def hexFrom : Nat → List Byte → Option Nat
  | out, [] => some out
  | out, c :: rest => (hexDigit c).bind fun d => hexFrom (out * 16 + d) rest

def hexValue (text : List Byte) : Option Nat := if text = [] then none else hexFrom 0 text

theorem crlf_length : crlf.length = 2 := rfl

theorem hexDigit_lt {c : Byte} {d : Nat} (digit : hexDigit c = some d) : d < 16 := by
  unfold hexDigit at digit
  split_ifs at digit with one two three
  · cases digit
    have : c.toNat ≤ 57 := one.2
    omega
  · cases digit
    have : c.toNat ≤ 102 := two.2
    omega
  · cases digit
    have : c.toNat ≤ 70 := three.2
    omega

theorem parseHexFrom_eq (text : List Byte) (out : Nat) :
    parseHexFrom (out % 2 ^ 64) text = (hexFrom out text).map (· % 2 ^ 64) := by
  induction text generalizing out with
  | nil => rfl
  | cons c rest ih =>
    rw [parseHexFrom, hexFrom]
    cases digit : hexDigit c with
    | none => rfl
    | some d =>
      have small := hexDigit_lt digit
      have whole : out % 2 ^ 64 * 16 % 2 ^ 64 + d = (out * 16 + d) % 2 ^ 64 := by omega
      simp only [bind_some, whole]
      rw [if_pos (Nat.mod_lt _ (by norm_num)), ih]

theorem parseHexU64_eq (text : List Byte) : parseHexU64 text = (hexValue text).map (· % 2 ^ 64) := by
  unfold parseHexU64 hexValue
  split
  · rfl
  · exact parseHexFrom_eq text 0

section Lines

variable {line rest q : List Byte}

theorem findCrlf_line (open_ : findCrlf line = none) : findCrlf (line ++ (crlf ++ rest)) = some line.length := by
  induction line with
  | nil => simp [findCrlf, crlf]
  | cons b line ih =>
    rw [findCrlf] at open_
    split at open_
    · exact absurd open_ (by simp)
    rename_i other
    have inner : findCrlf line = none := by simpa using open_
    rw [cons_append, findCrlf, if_neg, ih inner]
    · rfl
    rintro ⟨rfl, next⟩
    cases line with
    | nil => simp [crlf] at next
    | cons c line => exact other ⟨rfl, by simpa using next⟩

theorem findCrlf_prefix (open_ : findCrlf line = none) (part : q <+: line ++ [13]) : findCrlf q = none := by
  induction line generalizing q with
  | nil =>
    rcases q with _ | ⟨b, q⟩
    · rfl
    · obtain ⟨rfl, tail⟩ := cons_prefix_cons.mp part
      obtain rfl := prefix_nil.mp tail
      rfl
  | cons c line ih =>
    rcases q with _ | ⟨b, q⟩
    · rfl
    obtain ⟨rfl, tail⟩ := cons_prefix_cons.mp part
    rw [findCrlf] at open_ ⊢
    split at open_
    · exact absurd open_ (by simp)
    rename_i other
    have inner : findCrlf line = none := by simpa using open_
    rw [if_neg, ih inner tail]
    · rfl
    rintro ⟨rfl, next⟩
    refine other ⟨rfl, ?_⟩
    rcases q with _ | ⟨d, q⟩
    · exact absurd next (by simp)
    rcases line with _ | ⟨e, line⟩
    · have := (cons_prefix_cons.mp tail).1
      simp_all
    · have := (cons_prefix_cons.mp tail).1
      simp_all

theorem findCrlf_split {bytes : List Byte} {n : Nat} (found : findCrlf bytes = some n) :
    ∃ line rest, bytes = line ++ (crlf ++ rest) ∧ line.length = n ∧ findCrlf line = none := by
  induction bytes generalizing n with
  | nil => exact absurd found (by simp [findCrlf])
  | cons b bytes ih =>
    rw [findCrlf] at found
    split at found
    · rename_i here
      obtain ⟨rfl, next⟩ := here
      cases found
      rcases bytes with _ | ⟨c, bytes⟩
      · exact absurd next (by simp)
      · obtain rfl : c = 10 := by simpa using next
        exact ⟨[], bytes, rfl, rfl, rfl⟩
    · rename_i other
      obtain ⟨k, later, rfl⟩ := map_eq_some_iff.mp found
      obtain ⟨line, rest, rfl, rfl, open_⟩ := ih later
      refine ⟨b :: line, rest, rfl, rfl, ?_⟩
      rw [findCrlf, if_neg, open_]
      · rfl
      rintro ⟨rfl, next⟩
      refine other ⟨rfl, ?_⟩
      rcases line with _ | ⟨c, line⟩
      · exact absurd next (by simp)
      · simpa using next

end Lines

/-! ### Bodies -/

/-- A chunked body and its chunks: every declared size is the length of the data that follows. -/
inductive Body (size : List Byte → Option Nat) : List Byte → List (List Byte) → Prop
  | last {line : List Byte} (open_ : findCrlf line = none) (declared : size (sizeText line) = some 0) :
    Body size (line ++ (crlf ++ crlf)) []
  | chunk {line data bytes : List Byte} {cs : List (List Byte)} (open_ : findCrlf line = none)
    (declared : size (sizeText line) = some data.length) (filled : data ≠ []) (rest : Body size bytes cs) :
    Body size (line ++ (crlf ++ (data ++ (crlf ++ bytes)))) (data :: cs)

/-- The lines the scan of a buffer meets, with the offset of the data after each. -/
inductive Meets : List Byte → Nat → List Byte → Prop
  | here {line rest : List Byte} (open_ : findCrlf line = none) :
    Meets (line ++ (crlf ++ rest)) (line.length + 2) line
  | later {line data bytes other : List Byte} {offset : Nat} (open_ : findCrlf line = none)
    (declared : hexValue (sizeText line) = some data.length) (filled : data ≠ []) (rest : Meets bytes offset other) :
    Meets (line ++ (crlf ++ (data ++ (crlf ++ bytes)))) (line.length + 2 + (data.length + 2) + offset) other

theorem Meets.length_le {buf line : List Byte} {offset : Nat} (meets : Meets buf offset line) :
    offset ≤ buf.length ∧ line.length + 2 ≤ offset := by
  induction meets with
  | here => simp [crlf]
  | later _ _ _ _ ih =>
    simp only [length_append, crlf_length]
    omega

def Narrow (buf : List Byte) : Prop :=
  ∀ offset line, Meets buf offset line → ∀ n, hexValue (sizeText line) = some n → n < 2 ^ 64

section Step

variable {copy : Bool} {write0 fuel read write first chunks : Nat} {buf line tail : List Byte}

theorem slice_two (buf : List Byte) (k : Nat) : slice buf k (k + 2) = (buf.drop k).take 2 := by
  rw [slice, drop_take, Nat.add_sub_cancel_left]

theorem drop_line (here : buf.drop read = line ++ (crlf ++ tail)) : buf.drop (read + line.length + 2) = tail := by
  rw [← drop_drop, ← drop_drop, here, drop_left]
  rfl

theorem drop_chunk {data rest : List Byte} (here : buf.drop read = line ++ (crlf ++ (data ++ (crlf ++ rest)))) :
    buf.drop (read + line.length + 2 + data.length + 2) = rest := by
  rw [← drop_drop, ← drop_drop, drop_line here, drop_left]
  rfl

theorem walkFrom_line (here : buf.drop read = line ++ (crlf ++ tail)) (open_ : findCrlf line = none) :
    walkFrom copy write0 (fuel + 1) buf read write first chunks = match parseHexU64 (sizeText line) with
      | none => ⟨.malformed, first, chunks, buf⟩
      | some size =>
        if size = 0 then
          if tail.length < 2 then ⟨.incomplete, first, chunks, buf⟩
          else if tail.take 2 ≠ crlf then ⟨.malformed, first, chunks, buf⟩
          else ⟨.complete (write - write0), first, chunks, buf⟩
        else if usizeSize ≤ read + line.length + 2 + size + 2 then ⟨.malformed, first, chunks, buf⟩
        else if tail.length < size + 2 then ⟨.incomplete, first, chunks, buf⟩
        else if (tail.drop size).take 2 ≠ crlf then ⟨.malformed, first, chunks, buf⟩
        else
          walkFrom copy write0 fuel
            (if copy && read + line.length + 2 ≠ write then
              copyWithin buf (read + line.length + 2) (read + line.length + 2 + size) write else buf)
            (read + line.length + 2 + size + 2) (write + size)
            (if chunks = 0 then read + line.length + 2 else first) ((chunks + 1) % 2 ^ 32) := by
  have total : buf.length = read + line.length + 2 + tail.length := by
    have := congrArg length here
    simp only [length_drop, length_append, crlf_length] at this
    omega
  rw [walkFrom]
  simp only [here, findCrlf_line open_, take_left]
  cases parsed : parseHexU64 (sizeText line) with
  | none => rfl
  | some size =>
    have close : slice buf (read + line.length + 2 + size) (read + line.length + 2 + size + 2) = (tail.drop size).take 2 := by
      rw [slice_two, ← drop_drop, drop_line here]
    simp only [total]
    by_cases zero : size = 0
    · subst zero
      simp only [Nat.add_zero, drop_zero] at close
      simp only [if_true, close]
      congr 1
      exact propext (by omega)
    · simp only [zero, if_false, close]
      split_ifs <;> first | rfl | omega

end Step

section Copy

variable {buf : List Byte} {start size dst : Nat}

theorem slice_length (room : start + size ≤ buf.length) : (slice buf start (start + size)).length = size := by
  rw [slice, length_drop, length_take]
  omega

theorem slice_of_drop {data rest : List Byte} (here : buf.drop start = data ++ rest) :
    slice buf start (start + data.length) = data := by
  rw [slice, drop_take, Nat.add_sub_cancel_left, here, take_left]

theorem copyWithin_length (down : dst ≤ start) (room : start + size ≤ buf.length) :
    (copyWithin buf start (start + size) dst).length = buf.length := by
  simp only [copyWithin, length_append, slice_length room, length_take, length_drop]
  omega

theorem copyWithin_take (down : dst ≤ start) (room : start + size ≤ buf.length) :
    (copyWithin buf start (start + size) dst).take (dst + size) = buf.take dst ++ slice buf start (start + size) := by
  have front : (buf.take dst ++ slice buf start (start + size)).length = dst + size := by
    rw [length_append, slice_length room, length_take]
    omega
  rw [copyWithin, ← front, take_left]

theorem copyWithin_drop {k : Nat} (down : dst ≤ start) (room : start + size ≤ buf.length) (past : dst + size ≤ k) :
    (copyWithin buf start (start + size) dst).drop k = buf.drop k := by
  have front : (buf.take dst ++ slice buf start (start + size)).length = dst + size := by
    rw [length_append, slice_length room, length_take]
    omega
  obtain ⟨j, rfl⟩ := Nat.exists_eq_add_of_le past
  rw [copyWithin, ← drop_drop, ← front, drop_left, front, Nat.add_sub_cancel_left, drop_drop]

end Copy

/-- What the walk over a body with chunks `cs` leaves. -/
structure Walked (copy : Bool) (write0 : Nat) (buf : List Byte) (read write first chunks : Nat)
    (cs : List (List Byte)) (w : ChunkWalk) : Prop where
  res : w.res = .complete (write + cs.flatten.length - write0)
  count : w.chunks = chunks + cs.length
  start : ∀ data rest, cs = data :: rest → chunks = 0 →
    ∃ n, findCrlf (buf.drop read) = some n ∧ w.first = read + n + 2 ∧ data <+: buf.drop (read + n + 2)
  kept_first : chunks ≠ 0 ∨ cs = [] → w.first = first
  kept : copy = false → w.buf = buf
  gathered : copy = true → w.buf.take (write + cs.flatten.length) = buf.take write ++ cs.flatten

theorem moved_buffer {copy : Bool} {buf data rest : List Byte} {start write : Nat} (down : write ≤ start)
    (room : start + data.length ≤ buf.length) (here : buf.drop start = data ++ rest) :
    ∃ next, (if copy && start ≠ write then copyWithin buf start (start + data.length) write else buf) = next ∧
      next.length = buf.length ∧ next.drop (start + data.length) = buf.drop (start + data.length) ∧
      (copy = false → next = buf) ∧ (copy = true → next.take (write + data.length) = buf.take write ++ data) := by
  refine ⟨_, rfl, ?_⟩
  have text := slice_of_drop here
  cases copy with
  | false => simp
  | true =>
    by_cases same : start = write
    · subst same
      refine ⟨by simp, by simp, nofun, fun _ => ?_⟩
      rw [if_neg (by simp)]
      calc buf.take (start + data.length) = buf.take start ++ (buf.drop start).take data.length := take_add
        _ = buf.take start ++ data := by rw [here, take_left]
    · rw [if_pos (by simpa using same)]
      refine ⟨copyWithin_length down room, copyWithin_drop down room (by omega), nofun, fun _ => ?_⟩
      rw [copyWithin_take down room, text]

theorem walk_body {copy : Bool} {write0 : Nat} {bytes : List Byte} {cs : List (List Byte)}
    (body : Body parseHexU64 bytes cs) {fuel read write first chunks : Nat} {buf rest : List Byte}
    (turns : cs.length < fuel) (here : buf.drop read = bytes ++ rest) (fits : buf.length < usizeSize)
    (count : chunks + cs.length < 2 ^ 32) (down : ∀ n, findCrlf (buf.drop read) = some n → write ≤ read + n + 2) :
    Walked copy write0 buf read write first chunks cs (walkFrom copy write0 fuel buf read write first chunks) := by
  induction body generalizing fuel read write first chunks buf with
  | @last line open_ declared =>
    obtain ⟨fuel, rfl⟩ := Nat.exists_eq_succ_of_ne_zero (Nat.ne_of_gt turns)
    have split : buf.drop read = line ++ (crlf ++ (crlf ++ rest)) := by rw [here]; simp only [append_assoc]
    have ends : ¬(crlf ++ rest).length < 2 := by simp [crlf]
    have close : ¬(crlf ++ rest).take 2 ≠ crlf := by simp [crlf]
    rw [walkFrom_line split open_, declared]
    simp only [if_true, ends, close, if_false]
    exact ⟨by simp, by simp, nofun, fun _ => rfl, fun _ => rfl, by simp⟩
  | @chunk line data bytes cs open_ declared filled body ih =>
    obtain ⟨fuel, rfl⟩ := Nat.exists_eq_succ_of_ne_zero (Nat.ne_of_gt (Nat.zero_lt_of_lt turns))
    have split : buf.drop read = line ++ (crlf ++ (data ++ (crlf ++ (bytes ++ rest)))) := by
      rw [here]
      simp only [append_assoc]
    have found : findCrlf (buf.drop read) = some line.length := by rw [split, findCrlf_line open_]
    have total : buf.length = read + line.length + 2 + (data.length + 2 + (bytes ++ rest).length) := by
      have := congrArg length split
      simp only [length_drop, length_append, crlf_length] at this ⊢
      omega
    have after : buf.drop (read + line.length + 2) = data ++ (crlf ++ (bytes ++ rest)) := drop_line split
    have some_data : data.length ≠ 0 := by simpa using filled
    have ends : ¬(data ++ (crlf ++ (bytes ++ rest))).length < data.length + 2 := by simp [crlf]
    have close : ¬((data ++ (crlf ++ (bytes ++ rest))).drop data.length).take 2 ≠ crlf := by
      rw [drop_left]
      simp [crlf]
    obtain ⟨next, stored, length, tail, same, moved⟩ := @moved_buffer copy _ _ _ _ _ (down _ found) (by omega) after
    rw [walkFrom_line split open_, declared]
    simp only [some_data, if_false, ends, close, stored]
    rw [if_neg (by unfold usizeSize at *; omega), Nat.mod_eq_of_lt (by simp at count; omega)]
    have onward : next.drop (read + line.length + 2 + data.length + 2) = bytes ++ rest := by
      rw [← drop_drop, tail, drop_drop, drop_chunk split]
    obtain ⟨res, counted, -, first_kept, kept, gathered⟩ :=
      @ih fuel _ (write + data.length) (if chunks = 0 then read + line.length + 2 else first) (chunks + 1) next
        (by simpa using turns) onward (by omega) (by simp at count; omega)
        (fun n _ => by have := down _ found; omega)
    refine ⟨by rw [res, flatten_cons, length_append, Nat.add_assoc], ?_, ?_, ?_, ?_, ?_⟩
    · rw [counted, length_cons]
      omega
    · rintro _ _ ⟨rfl, rfl⟩ none_yet
      refine ⟨line.length, found, ?_, ?_⟩
      · rw [first_kept (.inl (by omega)), if_pos none_yet]
      · rw [after]
        exact prefix_append _ _
    · rintro (some_before | ⟨⟨⟩⟩)
      rw [first_kept (.inl (by omega)), if_neg some_before]
    · intro off
      rw [kept off, same off]
    · intro on
      rw [flatten_cons, length_append, ← Nat.add_assoc, gathered on, moved on, append_assoc]

theorem walk_keeps (write0 fuel read write first chunks : Nat) (buf : List Byte) :
    (walkFrom false write0 fuel buf read write first chunks).buf = buf := by
  induction fuel generalizing read write first chunks with
  | zero => rfl
  | succ fuel ih =>
    rw [walkFrom]
    simp only [Bool.false_and, Bool.false_eq_true, if_false]
    repeat' split
    all_goals first | rfl | exact ih ..

theorem walk_sound {write0 fuel read write first chunks n : Nat} {buf : List Byte}
    (complete : (walkFrom false write0 fuel buf read write first chunks).res = .complete n) :
    ∃ bytes cs rest, Body parseHexU64 bytes cs ∧ buf.drop read = bytes ++ rest := by
  induction fuel generalizing read write first chunks with
  | zero => exact absurd complete nofun
  | succ fuel ih =>
    cases found : findCrlf (buf.drop read) with
    | none =>
      rw [walkFrom] at complete
      simp only [found] at complete
      exact absurd complete nofun
    | some k =>
      obtain ⟨line, tail, here, -, open_⟩ := findCrlf_split found
      rw [walkFrom_line here open_] at complete
      cases declared : parseHexU64 (sizeText line) with
      | none =>
        rw [declared] at complete
        exact absurd complete nofun
      | some size =>
        simp only [declared, Bool.false_and, Bool.false_eq_true, if_false] at complete
        generalize (if chunks = 0 then read + line.length + 2 else first) = next at complete
        split_ifs at complete with zero short close wide short close
        · obtain ⟨rest, rfl⟩ : ∃ rest, tail = crlf ++ rest := ⟨tail.drop 2, by
            rw [← not_not.mp close, take_append_drop]⟩
          subst zero
          exact ⟨_, [], rest, .last open_ declared, by rw [here]; simp only [append_assoc]⟩
        · obtain ⟨data, rest, rfl, rfl⟩ : ∃ data rest, tail = data ++ (crlf ++ rest) ∧ data.length = size := by
            refine ⟨tail.take size, (tail.drop size).drop 2, ?_, by rw [length_take]; omega⟩
            rw [← not_not.mp close, take_append_drop, take_append_drop]
          obtain ⟨bytes, cs, after, body, onward⟩ := ih complete
          obtain rfl : rest = bytes ++ after := by rw [← onward, drop_chunk here]
          refine ⟨_, data :: cs, after, .chunk open_ declared (by simpa using zero) body, ?_⟩
          rw [here]
          simp only [append_assoc]

theorem prefix_append_cases {q a b : List Byte} (part : q <+: a ++ b) : q <+: a ∨ ∃ t, q = a ++ t ∧ t <+: b := by
  rcases prefix_or_prefix_of_prefix part (prefix_append a b) with short | ⟨t, rfl⟩
  · exact .inl short
  · exact .inr ⟨t, rfl, (prefix_append_right_inj a).mp part⟩

theorem prefix_line {q line tail : List Byte} (part : q <+: line ++ (crlf ++ tail)) :
    q <+: line ++ [13] ∨ ∃ t, q = line ++ (crlf ++ t) ∧ t <+: tail := by
  rw [show line ++ (crlf ++ tail) = (line ++ [13]) ++ (10 :: tail) by simp [crlf]] at part
  rcases prefix_append_cases part with short | ⟨t, rfl, inner⟩
  · exact .inl short
  rcases t with _ | ⟨b, t⟩
  · exact .inl (by simp)
  · obtain ⟨rfl, onward⟩ := cons_prefix_cons.mp inner
    exact .inr ⟨t, by simp [crlf], onward⟩

theorem walk_open {copy : Bool} {write0 fuel read write first chunks : Nat} {buf : List Byte}
    (open_ : findCrlf (buf.drop read) = none) :
    (walkFrom copy write0 (fuel + 1) buf read write first chunks).res = .incomplete := by
  rw [walkFrom]
  simp only [open_]

theorem walk_prefix {bytes : List Byte} {cs : List (List Byte)} (body : Body parseHexU64 bytes cs)
    {write0 fuel read write first chunks : Nat} {buf q : List Byte} (turns : q.length < fuel) (here : buf.drop read = q)
    (part : q <+: bytes) (cut : q.length < bytes.length) (fits : read + bytes.length < usizeSize) :
    (walkFrom false write0 fuel buf read write first chunks).res = .incomplete := by
  obtain ⟨fuel, rfl⟩ := Nat.exists_eq_succ_of_ne_zero (Nat.ne_of_gt (Nat.zero_lt_of_lt turns))
  induction body generalizing fuel read write first chunks q with
  | @last line open_ declared =>
    rcases prefix_line part with short | ⟨t, rfl, inner⟩
    · exact walk_open (by rw [here, findCrlf_prefix open_ short])
    rw [walkFrom_line here open_, declared]
    have short : t.length < 2 := by
      simp only [length_append, crlf_length] at cut
      omega
    simp only [if_true, short]
  | @chunk line data bytes cs open_ declared filled body ih =>
    rcases prefix_line part with short | ⟨t, rfl, inner⟩
    · exact walk_open (by rw [here, findCrlf_prefix open_ short])
    have some_data : data.length ≠ 0 := by simpa using filled
    have room : ¬usizeSize ≤ read + line.length + 2 + data.length + 2 := by
      simp only [length_append, crlf_length] at fits
      omega
    rw [walkFrom_line here open_, declared]
    simp only [some_data, room, if_false]
    by_cases short : t.length < data.length + 2
    · rw [if_pos short]
    obtain ⟨q, rfl, rest⟩ : ∃ q, t = data ++ (crlf ++ q) ∧ q <+: bytes := by
      rw [← append_assoc] at inner
      rcases prefix_append_cases inner with small | ⟨q, rfl, rest⟩
      · refine ⟨[], ?_, nil_prefix⟩
        rw [small.eq_of_length_le (by simp [crlf]; omega), append_nil]
      · exact ⟨q, append_assoc .., rest⟩
    have close : ¬((data ++ (crlf ++ q)).drop data.length).take 2 ≠ crlf := by
      rw [drop_left]
      simp [crlf]
    simp only [short, close, if_false, Bool.false_and, Bool.false_eq_true]
    simp only [length_append, crlf_length] at turns cut fits
    obtain ⟨fuel, rfl⟩ := Nat.exists_eq_succ_of_ne_zero (show fuel ≠ 0 by omega)
    exact ih (drop_chunk here) rest (by omega) (by omega) fuel (by omega)

theorem walk_wide {bytes line : List Byte} {offset : Nat} (meets : Meets bytes offset line)
    {write0 fuel read write first chunks n : Nat} {buf : List Byte} (turns : bytes.length < fuel)
    (here : buf.drop read = bytes) (fits : buf.length < usizeSize) (declared : hexValue (sizeText line) = some n)
    (positive : 0 < n) (small : n < 2 ^ 64) (wide : usizeSize ≤ read + offset + n + 2) :
    (walkFrom false write0 fuel buf read write first chunks).res = .malformed := by
  obtain ⟨fuel, rfl⟩ := Nat.exists_eq_succ_of_ne_zero (Nat.ne_of_gt (Nat.zero_lt_of_lt turns))
  induction meets generalizing fuel read write first chunks with
  | @here line rest open_ =>
    rw [walkFrom_line here open_, parseHexU64_eq, declared, map_some, Nat.mod_eq_of_lt small]
    simp only [Nat.ne_of_gt positive, if_false]
    rw [if_pos (by omega)]
  | @later earlier data bytes line offset open_ size filled meets ih =>
    have some_data : data.length ≠ 0 := by simpa using filled
    have total : read + earlier.length + 2 + data.length + 2 ≤ buf.length := by
      have := congrArg length here
      simp only [length_drop, length_append, crlf_length] at this
      omega
    have room : ¬usizeSize ≤ read + earlier.length + 2 + data.length + 2 := by omega
    have word : data.length < 2 ^ 64 := by
      unfold usizeSize at fits
      omega
    have enough : ¬(data ++ (crlf ++ bytes)).length < data.length + 2 := by simp [crlf]
    have close : ¬((data ++ (crlf ++ bytes)).drop data.length).take 2 ≠ crlf := by
      rw [drop_left]
      simp [crlf]
    rw [walkFrom_line here open_, parseHexU64_eq, size, map_some, Nat.mod_eq_of_lt word]
    simp only [some_data, room, enough, close, if_false, Bool.false_and, Bool.false_eq_true]
    simp only [length_append, crlf_length] at turns
    obtain ⟨fuel, rfl⟩ := Nat.exists_eq_succ_of_ne_zero (show fuel ≠ 0 by omega)
    exact ih (drop_chunk here) declared (by omega) fuel (by omega)

section Readers

variable {bytes rest : List Byte} {cs : List (List Byte)}

theorem Body.inWord (body : Body hexValue bytes cs) (fits : bytes.length < usizeSize) : Body parseHexU64 bytes cs := by
  induction body with
  | last open_ declared => exact .last open_ (by rw [parseHexU64_eq, declared]; rfl)
  | @chunk line data bytes cs open_ declared filled body ih =>
    simp only [length_append, crlf_length] at fits
    refine .chunk open_ ?_ filled (ih (by omega))
    rw [parseHexU64_eq, declared, map_some, Nat.mod_eq_of_lt]
    unfold usizeSize at fits
    omega

theorem Body.ofWord (body : Body parseHexU64 bytes cs) (narrow : Narrow (bytes ++ rest)) : Body hexValue bytes cs := by
  have unwrapped : ∀ {offset line n}, Meets (bytes ++ rest) offset line → parseHexU64 (sizeText line) = some n →
      hexValue (sizeText line) = some n := by
    intro offset line n meets read
    rw [parseHexU64_eq] at read
    obtain ⟨m, declared, rfl⟩ := map_eq_some_iff.mp read
    rw [declared, Nat.mod_eq_of_lt (narrow _ _ meets _ declared)]
  induction body with
  | @last line open_ declared =>
    rw [show line ++ (crlf ++ crlf) ++ rest = line ++ (crlf ++ (crlf ++ rest)) by simp] at unwrapped
    exact .last open_ (unwrapped (.here open_) declared)
  | @chunk line data bytes cs open_ declared filled body ih =>
    have shape : line ++ (crlf ++ (data ++ (crlf ++ bytes))) ++ rest = line ++ (crlf ++ (data ++ (crlf ++ (bytes ++ rest)))) := by
      simp only [append_assoc]
    rw [shape] at narrow unwrapped
    have size := unwrapped (.here open_) declared
    refine .chunk open_ size filled (ih ?_ fun meets => unwrapped (.later open_ size filled meets))
    exact fun offset other meets => narrow _ _ (.later open_ size filled meets)

theorem Body.room (body : Body parseHexU64 bytes cs) : 6 * cs.length ≤ bytes.length := by
  induction body with
  | last => simp
  | @chunk line data bytes cs open_ declared filled body ih =>
    have line_length : 0 < line.length := by
      rcases line with _ | ⟨c, line⟩
      · exact absurd declared (by simp [sizeText, parseHexU64])
      · exact Nat.zero_lt_succ _
    have data_length := length_pos_iff.mpr filled
    simp only [length_append, crlf_length, length_cons]
    omega

end Readers

/-! ### The two readers of a buffer -/

section Verdict

variable {buf bytes rest : List Byte} {cs : List (List Byte)}

theorem walkChunks_body {copy : Bool} {write0 : Nat} (body : Body parseHexU64 bytes cs) (fits : buf.length < 6 * 2 ^ 32)
    (here : buf = bytes ++ rest) (down : ∀ n, findCrlf buf = some n → write0 ≤ n + 2) :
    Walked copy write0 buf 0 write0 0 0 cs (walkChunks buf copy write0) := by
  have room := body.room
  have total : buf.length = bytes.length + rest.length := by rw [here, length_append]
  refine walk_body body (by omega) here (by unfold usizeSize; omega) (by omega) fun n found => ?_
  have := down n found
  omega

theorem dechunkInPlace_body (body : Body parseHexU64 bytes cs) (fits : buf.length < 6 * 2 ^ 32)
    (here : buf = bytes ++ rest) :
    (dechunkInPlace buf).1 = .complete cs.flatten.length ∧ (dechunkInPlace buf).2.take cs.flatten.length = cs.flatten := by
  have scan := @walkChunks_body _ _ _ _ false 0 body fits here fun _ _ => Nat.zero_le _
  have shift := @walkChunks_body _ _ _ _ true 0 body fits here fun _ _ => Nat.zero_le _
  have gathered := shift.gathered rfl
  simp only [Nat.zero_add, take_zero, nil_append] at gathered
  rw [dechunkInPlace, scan.res, shift.res]
  exact ⟨by simp, gathered⟩

theorem chunkedBody_body (body : Body parseHexU64 bytes cs) (fits : buf.length < 6 * 2 ^ 32)
    (here : buf = bytes ++ rest) :
    ∃ start, (chunkedBody buf).1 = .span start cs.flatten.length ∧
      slice (chunkedBody buf).2 start (start + cs.flatten.length) = cs.flatten := by
  obtain ⟨verdict, counted, start, kept_first, kept, -⟩ :=
    @walkChunks_body _ _ _ _ false 0 body fits here fun _ _ => Nat.zero_le _
  rw [Nat.zero_add, Nat.sub_zero] at verdict
  rw [chunkedBody]
  simp only [verdict, counted, kept rfl, Nat.zero_add]
  refine ⟨(walkChunks buf false 0).first, ?_⟩
  rcases cs with _ | ⟨data, _ | ⟨next, cs⟩⟩
  · simp [slice]
  · -- one chunk is read where it stands
    obtain ⟨n, -, placed, after, here⟩ := start data [] rfl rfl
    rw [← placed] at here
    simp only [length_cons, length_nil, if_true, le_refl, flatten_cons, flatten_nil, append_nil]
    exact ⟨trivial, slice_of_drop here.symm⟩
  · obtain ⟨n, found, placed, -⟩ := start data _ rfl rfl
    simp only [drop_zero, Nat.zero_add] at found placed
    have down : ∀ k, findCrlf buf = some k → (walkChunks buf false 0).first ≤ k + 2 := by
      intro k other
      rw [found] at other
      cases other
      rw [placed]
    obtain ⟨verdict', -, -, -, -, gathered⟩ := @walkChunks_body _ _ _ _ true _ body fits here down
    rw [Nat.add_sub_cancel_left] at verdict'
    have gather := gathered rfl
    have before : (buf.take (walkChunks buf false 0).first).length = (walkChunks buf false 0).first := by
      obtain ⟨line, tail, whole, rfl, -⟩ := findCrlf_split found
      rw [placed, whole]
      refine length_take_of_le ?_
      simp only [length_append, crlf_length]
      omega
    rw [if_neg (by simp)]
    simp only [verdict', slice, gather]
    refine ⟨trivial, ?_⟩
    nth_rewrite 1 [← before]
    exact drop_left

theorem scan_sound {n : Nat} (complete : (walkChunks buf false 0).res = .complete n) (narrow : Narrow buf) :
    ∃ bytes cs rest, Body hexValue bytes cs ∧ buf = bytes ++ rest := by
  obtain ⟨bytes, cs, rest, body, here⟩ := walk_sound complete
  rw [drop_zero] at here
  subst here
  exact ⟨bytes, cs, rest, body.ofWord narrow, rfl⟩

theorem readers_scan (open_ : ∀ n, (walkChunks buf false 0).res ≠ .complete n) :
    dechunkInPlace buf = ((walkChunks buf false 0).res, buf) ∧
      ((walkChunks buf false 0).res = .incomplete ∧ chunkedBody buf = (.incomplete, buf) ∨
        (walkChunks buf false 0).res = .malformed ∧ chunkedBody buf = (.malformed, buf)) := by
  have kept : (walkChunks buf false 0).buf = buf := walk_keeps ..
  rw [dechunkInPlace, chunkedBody]
  cases res : (walkChunks buf false 0).res with
  | complete n => exact absurd res (open_ n)
  | incomplete => simp only [kept, true_and, true_or]
  | malformed => simp only [kept, true_and, or_true]

end Verdict

theorem hexFrom_lt {text : List Byte} {out n : Nat} (read : hexFrom out text = some n) :
    n < (out + 1) * 16 ^ text.length := by
  induction text generalizing out with
  | nil =>
    cases read
    simp
  | cons c text ih =>
    obtain ⟨d, digit, onward⟩ := bind_eq_some_iff.mp read
    have small := hexDigit_lt digit
    calc n < (out * 16 + d + 1) * 16 ^ text.length := ih onward
      _ ≤ (out + 1) * 16 * 16 ^ text.length := Nat.mul_le_mul_right _ (by omega)
      _ = (out + 1) * 16 ^ (c :: text).length := by rw [length_cons, pow_succ]; ring

theorem narrow_of_short {buf : List Byte} (short : buf.length ≤ 16) : Narrow buf := by
  intro offset line meets n declared
  obtain ⟨inside, placed⟩ := meets.length_le
  unfold hexValue at declared
  split at declared
  · exact absurd declared nofun
  have text : (sizeText line).length ≤ line.length := (takeWhile_sublist _).length_le
  calc n < (0 + 1) * 16 ^ (sizeText line).length := hexFrom_lt declared
    _ ≤ 1 * 16 ^ 16 := Nat.mul_le_mul_left _ (Nat.pow_le_pow_right (by norm_num) (by omega))
    _ = 2 ^ 64 := by norm_num

/-- A body of the single chunk `A`. -/
def oneChunk : List Byte := [49, 13, 10, 65, 13, 10, 48, 13, 10, 13, 10]

theorem Body.first_size {bytes rest : List Byte} {cs : List (List Byte)} {n k : Nat} (body : Body hexValue bytes cs)
    (found : findCrlf (bytes ++ rest) = some k) (declared : hexValue (sizeText ((bytes ++ rest).take k)) = some n) :
    n ≤ bytes.length := by
  cases body with
  | @last line open_ size =>
    rw [show line ++ (crlf ++ crlf) ++ rest = line ++ (crlf ++ (crlf ++ rest)) by simp] at found declared
    rw [findCrlf_line open_] at found
    cases found
    rw [take_left, size] at declared
    cases declared
    exact Nat.zero_le _
  | @chunk line data bytes cs open_ size _ _ =>
    rw [append_assoc, append_assoc] at found declared
    rw [findCrlf_line open_] at found
    cases found
    rw [take_left, size] at declared
    cases declared
    simp only [length_append]
    omega

/-- A size of seventeen digits, 2^64 + 1, in front of the single byte `A`. -/
def wrappedSize : List Byte := 49 :: (replicate 15 48 ++ [49, 13, 10, 65, 13, 10, 48, 13, 10, 13, 10])

end TradingEngine.Net
