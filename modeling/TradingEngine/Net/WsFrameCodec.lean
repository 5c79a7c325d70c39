import TradingEngine.Net.WsFrame

/-!
# Frames written and read back

The reader decides on a prefix and keeps to it; the mask undoes itself; what the writer wrote is read back whole.
-/

namespace TradingEngine.Net

open Base (bigEndian bigEndianBytes)
open List

variable {lenCode : Byte} {header : WsFrameHeader} {dst : List Byte}

section Longer

variable (buf more : List Byte)

theorem slice_append_left {buf more : List Byte} {start stop : Nat} (inside : stop ≤ buf.length) :
    slice (buf ++ more) start stop = slice buf start stop := by
  rw [slice, slice, take_append_of_le_length inside]

/-- More bytes change the answer of a reader only while it waits, and then the longer read ends past them. -/
theorem payloadLength_grows (lenCode : Byte) :
    payloadLength (buf ++ more) lenCode = payloadLength buf lenCode ∨
    payloadLength buf lenCode = .error .incomplete ∧ ∀ payloadLen cursor,
      payloadLength (buf ++ more) lenCode = .ok (payloadLen, cursor) → buf.length < cursor := by
  have grown : buf.length ≤ (buf ++ more).length := by simp
  unfold payloadLength
  by_cases small : lenCode ≤ 125
  · exact .inl (by rw [if_pos small, if_pos small])
  by_cases half : lenCode = 126
  · simp only [if_neg small, if_pos half]
    by_cases short : buf.length < 4
    · refine .inr ⟨if_pos short, fun payloadLen cursor read => ?_⟩
      split_ifs at read
      cases read
      exact short
    · rw [if_neg short, if_neg (by omega), slice_append_left (by omega)]
      exact .inl rfl
  · simp only [if_neg small, if_neg half]
    by_cases short : buf.length < 10
    · refine .inr ⟨if_pos short, fun payloadLen cursor read => ?_⟩
      split_ifs at read
      cases read
      exact short
    · rw [if_neg short, if_neg (by omega), slice_append_left (by omega), getD_append _ _ _ _ (by omega)]
      exact .inl rfl

theorem span_grows {n n' : Nat} (grown : n ≤ n') (header : WsFrameHeader) (start stop : Nat) :
    let answer n := if 2 ^ 64 ≤ stop then .malformed else if n < stop then .incomplete else
      WsReadResult.frame header ⟨start, stop⟩
    answer n' = answer n ∨ answer n = .incomplete ∧ ∀ header span, answer n' = .frame header span → n < span.stop := by
  intro answer
  by_cases past : 2 ^ 64 ≤ stop
  · exact .inl (by simp only [answer, if_pos past])
  by_cases short : n < stop
  · refine .inr ⟨by simp only [answer, if_neg past, if_pos short], fun header span read => ?_⟩
    simp only [answer] at read
    split_ifs at read
    cases read
    exact short
  · exact .inl (by simp only [answer, if_neg short, if_neg (show ¬ n' < stop by omega)])

theorem readPayload_grows (fin masked : Bool) (opcode : WsOpcode) (payloadLen cursor : Nat) :
    readPayload (buf ++ more) fin opcode masked payloadLen cursor = readPayload buf fin opcode masked payloadLen cursor ∨
    readPayload buf fin opcode masked payloadLen cursor = .incomplete ∧ ∀ header span,
      readPayload (buf ++ more) fin opcode masked payloadLen cursor = .frame header span → buf.length < span.stop := by
  have grown : buf.length ≤ (buf ++ more).length := by simp
  unfold readPayload
  by_cases wide : (opcode.isControl && decide (125 < payloadLen)) = true
  · exact .inl (by rw [if_pos wide, if_pos wide])
  simp only [if_neg wide]
  cases masked with
  | false => exact span_grows grown ..
  | true =>
    simp only [Bool.true_and, decide_eq_true_eq, if_true]
    by_cases keyless : buf.length < cursor + 4
    · refine .inr ⟨if_pos keyless, fun header span read => ?_⟩
      split_ifs at read
      cases read
      simp only
      omega
    · rw [if_neg keyless, if_neg (by omega), slice_append_left (by omega)]
      exact span_grows grown ..

theorem readPayload_frame {buf : List Byte} {fin masked : Bool} {opcode : WsOpcode} {payloadLen cursor : Nat}
    {span : PayloadSpan}
    (read : readPayload buf fin opcode masked payloadLen cursor = .frame header span) :
    cursor ≤ span.start ∧ span.start ≤ span.stop ∧ span.stop ≤ buf.length := by
  simp only [readPayload] at read
  generalize ends : (if masked = true then cursor + 4 else cursor) = stop at read
  have later : cursor ≤ stop := by split at ends <;> omega
  generalize (if masked = true then slice buf cursor (cursor + 4) else noMask) = mask at read
  split_ifs at read
  cases read
  exact ⟨later, Nat.le_add_right _ _, Nat.le_of_not_lt ‹_›⟩

theorem payloadLength_cursor {buf : List Byte} {payloadLen cursor : Nat}
    (read : payloadLength buf lenCode = .ok (payloadLen, cursor)) : 2 ≤ cursor := by
  unfold payloadLength at read
  split_ifs at read <;> cases read <;> decide

theorem payloadLength_frame {buf : List Byte} (header : WsFrameHeader) (span : PayloadSpan) :
    payloadLength buf lenCode ≠ .error (.frame header span) := by
  unfold payloadLength
  split_ifs <;> exact fun same => nomatch same

theorem wsReadFrame_frame {buf : List Byte} {span : PayloadSpan} (read : wsReadFrame buf = .frame header span) :
    2 ≤ span.start ∧ span.start ≤ span.stop ∧ span.stop ≤ buf.length := by
  simp only [wsReadFrame] at read
  split_ifs at read
  split at read
  · cases read
  split_ifs at read
  split at read
  case _ answer stopped =>
    subst read
    exact absurd stopped (payloadLength_frame _ _)
  case _ payloadLen cursor length =>
    obtain ⟨behind, forward, inside⟩ := readPayload_frame read
    exact ⟨(payloadLength_cursor length).trans behind, forward, inside⟩

theorem wsReadFrame_grows : wsReadFrame (buf ++ more) = wsReadFrame buf ∨
    wsReadFrame buf = .incomplete ∧ ∀ header span,
      wsReadFrame (buf ++ more) = .frame header span → buf.length < span.stop := by
  have grown : buf.length ≤ (buf ++ more).length := by simp
  by_cases short : buf.length < 2
  · refine .inr ⟨by rw [wsReadFrame, if_pos short], fun header span read => ?_⟩
    obtain ⟨two, forward, _⟩ := wsReadFrame_frame read
    omega
  simp only [wsReadFrame, if_neg short, if_neg (show ¬ (buf ++ more).length < 2 by omega),
    getD_append _ _ _ _ (show 0 < buf.length by omega), getD_append _ _ _ _ (show 1 < buf.length by omega)]
  by_cases reserved : buf.getD 0 0 &&& 0x70 ≠ 0
  · exact .inl (by rw [if_pos reserved, if_pos reserved])
  simp only [if_neg reserved]
  cases WsOpcode.fromNibble (buf.getD 0 0 &&& 0x0f) with
  | none => exact .inl rfl
  | some opcode =>
    dsimp only
    by_cases cut : (opcode.isControl && !decide (buf.getD 0 0 &&& 0x80 ≠ 0)) = true
    · exact .inl (by rw [if_pos cut, if_pos cut])
    simp only [if_neg cut]
    rcases payloadLength_grows buf more (buf.getD 1 0 &&& 0x7f) with same | ⟨waits, later⟩
    · rw [same]
      rcases payloadLength buf (buf.getD 1 0 &&& 0x7f) with answer | ⟨payloadLen, cursor⟩
      · exact .inl rfl
      · exact readPayload_grows ..
    · rw [waits]
      refine .inr ⟨rfl, fun header span read => ?_⟩
      rcases length : payloadLength (buf ++ more) (buf.getD 1 0 &&& 0x7f) with answer | ⟨payloadLen, cursor⟩
      · rw [length] at read
        subst read
        exact absurd length (payloadLength_frame _ _)
      · rw [length] at read
        have past := later payloadLen cursor length
        obtain ⟨behind, forward, _⟩ := readPayload_frame read
        omega

theorem wsReadFrame_longer {buf : List Byte} (more : List Byte) (decided : wsReadFrame buf ≠ .incomplete) :
    wsReadFrame (buf ++ more) = wsReadFrame buf := (wsReadFrame_grows buf more).resolve_right fun waits => decided waits.1

theorem wsReadFrame_short {buf more : List Byte} {span : PayloadSpan} (waits : wsReadFrame buf = .incomplete)
    (read : wsReadFrame (buf ++ more) = .frame header span) : buf.length < span.stop := by
  rcases wsReadFrame_grows buf more with same | ⟨_, past⟩
  · rw [same, waits] at read
    cases read
  · exact past header span read

end Longer

section Mask

variable {mask buf : List Byte}

theorem doubled_getD (four : mask.length = 4) {d : Nat} (inside : d < 8) :
    (mask ++ mask).getD d 0 = mask.getD (d % 4) 0 := by
  rcases Nat.lt_or_ge d 4 with low | high
  · rw [getD_append _ _ _ _ (by omega), Nat.mod_eq_of_lt low]
  · rw [getD_append_right _ _ _ _ (by omega), four, Nat.mod_eq_sub_mod high, Nat.mod_eq_of_lt (by omega)]

theorem unmaskStrides_get (four : mask.length = 4) (k j : Nat) : (unmaskStrides mask buf k)[j]? =
    (buf[j]?).map fun b => if j < 8 * k then b ^^^ mask.getD (j % 4) 0 else b := by
  induction k with
  | zero => simp [unmaskStrides]
  | succ k ih =>
    rw [unmaskStrides, unmaskStride, getElem?_mapIdx, ih, Option.map_map]
    congr 1
    funext b
    rcases Nat.lt_or_ge j (8 * k) with before | from_
    · simp [before, not_le.mpr before, show j < 8 * (k + 1) by omega]
    rcases Nat.lt_or_ge j (8 * k + 8) with inside | past
    · obtain ⟨d, rfl⟩ := Nat.exists_eq_add_of_le from_
      have turn : (8 * k + d) % 4 = d % 4 := by omega
      simp [inside, show 8 * k + d < 8 * (k + 1) by omega, turn, doubled_getD four (show d < 8 by omega),
        -getD_eq_getElem?_getD]
    · simp [not_lt.mpr from_, not_lt.mpr past, show ¬ j < 8 * (k + 1) by omega]

theorem unmaskTail_get (start n j : Nat) : (unmaskTail mask start buf n)[j]? =
    (buf[j]?).map fun b => if start ≤ j ∧ j < start + n then b ^^^ mask.getD (j % 4) 0 else b := by
  induction n with
  | zero => simp [unmaskTail, show ∀ a b : Nat, ¬ (a ≤ b ∧ b < a) by omega]
  | succ n ih =>
    rw [unmaskTail, getElem?_modify, ih, Option.map_eq_map, Option.map_map]
    congr 1
    funext b
    by_cases here : start + n = j
    · subst here
      simp
    · simp only [Function.comp, if_neg here]
      congr 1
      exact propext (by omega)

theorem wsUnmaskInPlace_get (four : mask.length = 4) (j : Nat) : (wsUnmaskInPlace buf mask)[j]? =
    (buf[j]?).map fun b => b ^^^ mask.getD (j % 4) 0 := by
  rw [wsUnmaskInPlace, unmaskTail_get, unmaskStrides_get four, Option.map_map]
  rcases Nat.lt_or_ge j buf.length with inside | past
  · rw [getElem?_eq_getElem inside, Option.map_some, Option.map_some]
    congr 1
    by_cases strided : j < 8 * (buf.length / 8)
    · simp [strided, not_le.mpr strided]
    · have tail : 8 * (buf.length / 8) ≤ j ∧ j < 8 * (buf.length / 8) + (buf.length - 8 * (buf.length / 8)) := by omega
      simp only [Function.comp, if_neg strided, if_pos tail]
  · rw [getElem?_eq_none past, Option.map_none, Option.map_none]

theorem wsUnmaskInPlace_length (four : mask.length = 4) : (wsUnmaskInPlace buf mask).length = buf.length := by
  apply Nat.le_antisymm
  · apply getElem?_eq_none_iff.mp
    rw [wsUnmaskInPlace_get four, getElem?_eq_none le_rfl, Option.map_none]
  apply getElem?_eq_none_iff.mp
  have last : (wsUnmaskInPlace buf mask)[(wsUnmaskInPlace buf mask).length]? = _ := wsUnmaskInPlace_get four _
  rw [getElem?_eq_none le_rfl] at last
  exact Option.map_eq_none_iff.mp last.symm

theorem wsUnmaskInPlace_twice (four : mask.length = 4) : wsUnmaskInPlace (wsUnmaskInPlace buf mask) mask = buf := by
  apply ext_getElem?
  intro j
  rw [wsUnmaskInPlace_get four, wsUnmaskInPlace_get four, Option.map_map]
  have undone : ((fun b => b ^^^ mask.getD (j % 4) 0) ∘ fun b => b ^^^ mask.getD (j % 4) 0) = id := by
    funext b
    rw [Function.comp, UInt8.xor_assoc, UInt8.xor_self, UInt8.xor_zero, id]
  rw [undone, Option.map_id, id]

end Mask

def clientHeader (opcode : WsOpcode) (plen : Nat) (mask : List Byte) : List Byte :=
  (0x80 ||| opcode.code) :: (lengthForm plen ++ mask)

section Writer

variable {mask : List Byte}

theorem lengthForm_length (plen : Nat) : (lengthForm plen).length + 5 = clientHeaderLen plen := by
  unfold lengthForm clientHeaderLen
  split_ifs <;> simp

theorem clientHeader_length (four : mask.length = 4) (opcode : WsOpcode) (plen : Nat) :
    (clientHeader opcode plen mask).length = clientHeaderLen plen := by
  have form := lengthForm_length plen
  rw [clientHeader, length_cons, length_append, four]
  omega

theorem writeAt_behind (front rest bytes : List Byte) :
    writeAt (front ++ rest) front.length bytes = front ++ (bytes ++ rest.drop bytes.length) := by
  rw [writeAt, take_left, ← drop_drop, drop_left, append_assoc]

theorem writeClientHeader_eq (four : mask.length = 4) (dst : List Byte) (opcode : WsOpcode) (plen : Nat) :
    writeClientHeader dst opcode plen mask =
      (clientHeader opcode plen mask ++ dst.drop (clientHeaderLen plen), clientHeaderLen plen) := by
  have ends : ((0x80 ||| opcode.code) :: lengthForm plen).length + 4 = clientHeaderLen plen := by
    rw [← lengthForm_length, length_cons]
  have first := writeAt_behind [] dst ((0x80 ||| opcode.code) :: lengthForm plen)
  have second := writeAt_behind ((0x80 ||| opcode.code) :: lengthForm plen)
    (dst.drop ((0x80 ||| opcode.code) :: lengthForm plen).length) mask
  rw [nil_append, length_nil, nil_append] at first
  rw [drop_drop, four] at second
  rw [ends] at second
  simp only [writeClientHeader, first, second]
  simp only [ends, clientHeader, cons_append, append_assoc]

theorem writeParts_eq (front rest : List Byte) (parts : List (List Byte)) :
    writeParts (front ++ rest) front.length parts = front ++ (parts.flatten ++ rest.drop parts.flatten.length) := by
  induction parts generalizing front rest with
  | nil => rfl
  | cons part parts ih =>
    have next := ih (front ++ part) (rest.drop part.length)
    rw [length_append, append_assoc, append_assoc] at next
    rw [writeParts, writeAt_behind, next, flatten_cons, length_append, drop_drop, append_assoc]

def frameBytes (opcode : WsOpcode) (payload mask : List Byte) : List Byte :=
  clientHeader opcode payload.length mask ++ wsUnmaskInPlace payload mask

theorem frameBytes_length (four : mask.length = 4) (opcode : WsOpcode) (payload : List Byte) :
    (frameBytes opcode payload mask).length = clientHeaderLen payload.length + payload.length := by
  rw [frameBytes, length_append, clientHeader_length four, wsUnmaskInPlace_length four]

theorem wsWriteFrameWith_eq (four : mask.length = 4) {opcode : WsOpcode} {parts : List (List Byte)}
    (room : (frameBytes opcode parts.flatten mask).length ≤ dst.length) :
    wsWriteFrameWith dst opcode parts mask = .ok (frameBytes opcode parts.flatten mask ++
      dst.drop (frameBytes opcode parts.flatten mask).length, (frameBytes opcode parts.flatten mask).length) := by
  have sum : (parts.map length).sum = parts.flatten.length := length_flatten.symm
  have header := clientHeader_length four opcode parts.flatten.length
  rw [frameBytes_length four] at room ⊢
  simp only [wsWriteFrameWith, sum, if_neg (not_lt.mpr room), writeClientHeader_eq four, frameBytes, append_assoc]
  rw [← header, writeParts_eq, slice_of_drop (drop_left), writeAt_behind, wsUnmaskInPlace_length four, drop_left, drop_drop]

theorem wsWriteFrameWith_small (four : mask.length = 4) {opcode : WsOpcode} {parts : List (List Byte)}
    (tight : dst.length < (frameBytes opcode parts.flatten mask).length) :
    wsWriteFrameWith dst opcode parts mask = .error .bufferTooSmall := by
  have sum : (parts.map length).sum = parts.flatten.length := length_flatten.symm
  rw [frameBytes_length four] at tight
  simp only [wsWriteFrameWith, sum, if_pos tight]

end Writer

theorem code_reads (opcode : WsOpcode) : (0x80 ||| opcode.code) &&& 0x70 = 0 ∧
    WsOpcode.fromNibble ((0x80 ||| opcode.code) &&& 0x0f) = some opcode ∧ (0x80 ||| opcode.code) &&& 0x80 ≠ 0 := by
  cases opcode <;> decide

theorem short_length_reads {plen : Nat} (short : plen ≤ 125) :
    (0x80 ||| UInt8.ofNat plen) &&& 0x7f = UInt8.ofNat plen ∧ (0x80 ||| UInt8.ofNat plen) &&& 0x80 ≠ 0 ∧
      UInt8.ofNat plen ≤ 125 ∧ (UInt8.ofNat plen).toNat = plen := by
  have each : ∀ n : Fin 126, (0x80 ||| UInt8.ofNat n) &&& 0x7f = UInt8.ofNat n ∧ (0x80 ||| UInt8.ofNat n) &&& 0x80 ≠ 0 ∧
      UInt8.ofNat n ≤ 125 ∧ (UInt8.ofNat n).toNat = n := by decide +kernel
  exact each ⟨plen, by omega⟩

theorem top_bit_clear {b : Byte} (low : b.toNat < 128) : b &&& 0x80 = 0 := by
  have each : ∀ n : Fin 128, UInt8.ofNat n &&& 0x80 = 0 := by decide +kernel
  have one := each ⟨b.toNat, low⟩
  rwa [UInt8.ofNat_toNat] at one

theorem lengthForm_reads (b0 : Byte) (rest : List Byte) {plen : Nat} (inWord : plen < 2 ^ 63) :
    ∃ b1 field, lengthForm plen = b1 :: field ∧ b1 &&& 0x80 ≠ 0 ∧
      payloadLength (b0 :: b1 :: (field ++ rest)) (b1 &&& 0x7f) = .ok (plen, field.length + 2) := by
  by_cases short : plen ≤ 125
  · obtain ⟨value, bit, small, back⟩ := short_length_reads short
    refine ⟨0x80 ||| UInt8.ofNat plen, [], by rw [lengthForm, if_pos short], bit, ?_⟩
    rw [value, payloadLength, if_pos small, back, length_nil]
  by_cases half : plen ≤ 65535
  · refine ⟨0x80 ||| 126, bigEndianBytes 2 plen, by rw [lengthForm, if_neg short, if_pos half], by decide, ?_⟩
    have field : slice (b0 :: (0x80 ||| 126) :: (bigEndianBytes 2 plen ++ rest)) 2 4 = bigEndianBytes 2 plen := by
      have found : slice (b0 :: (0x80 ||| 126) :: (bigEndianBytes 2 plen ++ rest)) 2 (2 + (bigEndianBytes 2 plen).length) =
          bigEndianBytes 2 plen := slice_of_drop rfl
      rwa [Base.bigEndianBytes_length] at found
    rw [payloadLength, if_neg (by decide), if_pos (by decide), if_neg (by simp), field, Base.bigEndian_bytes,
      Nat.mod_eq_of_lt (by omega), Base.bigEndianBytes_length]
  · refine ⟨0x80 ||| 127, bigEndianBytes 8 plen, by rw [lengthForm, if_neg short, if_neg half], by decide, ?_⟩
    have field : slice (b0 :: (0x80 ||| 127) :: (bigEndianBytes 8 plen ++ rest)) 2 10 = bigEndianBytes 8 plen := by
      have found : slice (b0 :: (0x80 ||| 127) :: (bigEndianBytes 8 plen ++ rest)) 2 (2 + (bigEndianBytes 8 plen).length) =
          bigEndianBytes 8 plen := slice_of_drop rfl
      rwa [Base.bigEndianBytes_length] at found
    have top : (b0 :: (0x80 ||| 127) :: (bigEndianBytes 8 plen ++ rest)).getD 2 0 &&& 0x80 = 0 := by
      apply top_bit_clear
      change (Base.byte plen 7).toNat < 128
      rw [Base.byte_toNat]
      omega
    rw [payloadLength, if_neg (by decide), if_neg (by decide), if_neg (by simp), if_neg (not_not.mpr top), field,
      Base.bigEndian_bytes, Nat.mod_eq_of_lt (by omega), Base.bigEndianBytes_length]

theorem wsReadFrame_client (opcode : WsOpcode) {mask : List Byte} (body : List Byte) (four : mask.length = 4)
    (inWord : body.length < 2 ^ 63) (brief : opcode.isControl = true → body.length ≤ 125) (rest : List Byte) :
    wsReadFrame (clientHeader opcode body.length mask ++ (body ++ rest)) =
      .frame ⟨true, opcode, true, body.length, clientHeaderLen body.length, mask⟩
        ⟨clientHeaderLen body.length, clientHeaderLen body.length + body.length⟩ := by
  obtain ⟨reserved, nibble, fin⟩ := code_reads opcode
  obtain ⟨b1, field, form, bit, length⟩ := lengthForm_reads (0x80 ||| opcode.code) (mask ++ (body ++ rest)) inWord
  have headerLen : field.length + 2 + 4 = clientHeaderLen body.length := by rw [← lengthForm_length, form, length_cons]
  have bytes : clientHeader opcode body.length mask ++ (body ++ rest) =
      (0x80 ||| opcode.code) :: b1 :: (field ++ (mask ++ (body ++ rest))) := by
    rw [clientHeader, form]
    simp only [cons_append, append_assoc]
  have total : ((0x80 ||| opcode.code) :: b1 :: (field ++ (mask ++ (body ++ rest)))).length =
      field.length + 2 + 4 + (body.length + rest.length) := by
    simp only [length_cons, length_append, four]
    omega
  have key : slice ((0x80 ||| opcode.code) :: b1 :: (field ++ (mask ++ (body ++ rest)))) (field.length + 2)
      (field.length + 2 + 4) = mask := by
    have behind : ((0x80 ||| opcode.code) :: b1 :: (field ++ (mask ++ (body ++ rest)))).drop (field.length + 2) =
        mask ++ (body ++ rest) := by
      rw [drop_succ_cons, drop_succ_cons, drop_left]
    rw [← four]
    exact slice_of_drop behind
  have control : (opcode.isControl && decide (125 < body.length)) = false := by
    cases kind : opcode.isControl with
    | false => rfl
    | true => simpa using brief kind
  have payload : readPayload ((0x80 ||| opcode.code) :: b1 :: (field ++ (mask ++ (body ++ rest)))) true opcode true
      body.length (field.length + 2) = .frame ⟨true, opcode, true, body.length, clientHeaderLen body.length, mask⟩
        ⟨clientHeaderLen body.length, clientHeaderLen body.length + body.length⟩ := by
    have wide : clientHeaderLen body.length ≤ 14 := by
      unfold clientHeaderLen
      split_ifs <;> omega
    rw [headerLen] at key
    simp only [readPayload, control, total, headerLen, key, if_true, Bool.true_and, decide_eq_true_eq, Bool.false_eq_true,
      if_false]
    rw [if_neg (by omega), if_neg (by omega), if_neg (by omega)]
  rw [bytes, wsReadFrame, if_neg (by simp)]
  simp only [getD_cons_zero, getD_cons_succ, reserved, ne_eq, not_true_eq_false, if_false, nibble, fin,
    not_false_eq_true, decide_true, Bool.not_true, Bool.and_false, Bool.false_eq_true, length, bit]
  exact payload

theorem wsWriteFrameWith_reads {opcode : WsOpcode} {parts : List (List Byte)} {mask buf : List Byte} {n : Nat}
    (four : mask.length = 4) (inWord : dst.length < 2 ^ 63)
    (brief : opcode.isControl = true → parts.flatten.length ≤ 125)
    (wrote : wsWriteFrameWith dst opcode parts mask = .ok (buf, n)) (rest : List Byte) :
    ∃ header span, wsReadFrame (buf.take n ++ rest) = .frame header span ∧ span.stop = n ∧ header.opcode = opcode ∧
      header.fin = true ∧ header.mask = mask ∧
      wsUnmaskInPlace (slice (buf.take n ++ rest) span.start span.stop) header.mask = parts.flatten := by
  have length := frameBytes_length four opcode parts.flatten
  rcases Nat.lt_or_ge dst.length (frameBytes opcode parts.flatten mask).length with tight | room
  · rw [wsWriteFrameWith_small four tight] at wrote
    cases wrote
  rw [wsWriteFrameWith_eq four room] at wrote
  cases wrote
  have body : (wsUnmaskInPlace parts.flatten mask).length = parts.flatten.length := wsUnmaskInPlace_length four
  have read := wsReadFrame_client opcode (wsUnmaskInPlace parts.flatten mask) four (by omega) (by rw [body]; exact brief) rest
  rw [take_left]
  rw [body, ← append_assoc] at read
  refine ⟨_, _, read, length.symm, rfl, rfl, rfl, ?_⟩
  have payload : slice (frameBytes opcode parts.flatten mask ++ rest) (clientHeaderLen parts.flatten.length)
      (clientHeaderLen parts.flatten.length + parts.flatten.length) = wsUnmaskInPlace parts.flatten mask := by
    have behind : (frameBytes opcode parts.flatten mask ++ rest).drop (clientHeaderLen parts.flatten.length) =
        wsUnmaskInPlace parts.flatten mask ++ rest := by
      rw [frameBytes, append_assoc, ← clientHeader_length four opcode, drop_left]
    have found := slice_of_drop behind
    rwa [body] at found
  simp only [payload]
  exact wsUnmaskInPlace_twice four

end TradingEngine.Net
