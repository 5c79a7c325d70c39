import TradingEngine.Amm.Payload

/-!
# Round trips of the pool-event payload

A word reads back as it was written and leaves the rest of the payload.
-/

namespace TradingEngine.Amm
open Base Option Payload

variable {block : Unsigned 8}

namespace Payload

section Words

variable {p q : Payload} {s k n s' k' i : Nat}

theorem at_put (inside : i < payloadLen) :
    (p.put s k n).at_ i = if s ≤ i ∧ i < s + k then byte n (i - s) else p.at_ i := by
  simp only [at_, put, inside, dite_true]

theorem at_put_same {b : UInt8} (inside : s < payloadLen) : (p.putByte s b).at_ s = b := by
  rw [at_put inside, if_pos ⟨le_rfl, Nat.lt_succ_self s⟩]
  apply UInt8.toNat_inj.mp
  rw [byte_toNat, Nat.sub_self, pow_zero, Nat.div_one]
  exact Nat.mod_eq_of_lt b.toNat_lt

theorem at_put_other (apart : i < s ∨ s + k ≤ i) : (p.put s k n).at_ i = p.at_ i := by
  by_cases inside : i < payloadLen
  · rw [at_put inside, if_neg (by omega)]
  · simp only [at_, inside, dite_false]

theorem get_put_same (inside : s + k ≤ payloadLen) : (p.put s k n).get s k = n % 256 ^ k := by
  rw [get, ← word_byte]
  refine word_congr fun j before => ?_
  rw [at_put (by omega), if_pos (by omega), Nat.add_sub_cancel_left]

theorem get_put_other (apart : s' + k' ≤ s ∨ s + k ≤ s') : (p.put s k n).get s' k' = p.get s' k' :=
  word_congr fun _ _ => at_put_other (by omega)

theorem getU_put_other (apart : s' + k' ≤ s ∨ s + k ≤ s') : (p.put s k n).getU s' k' = p.getU s' k' :=
  Fin.ext (get_put_other apart)

theorem getS_put_other (apart : s' + k' ≤ s ∨ s + k ≤ s') : (p.put s k n).getS s' k' = p.getS s' k' :=
  Subtype.ext (by simp only [getS, get_put_other apart])

theorem getU56_put_other (apart : s' + 7 ≤ s ∨ s + k ≤ s') : (p.put s k n).getU56 s' = p.getU56 s' :=
  Fin.ext (get_put_other apart)

theorem getI24_put_other (apart : s' + 3 ≤ s ∨ s + k ≤ s') : (p.put s k n).getI24 s' = p.getI24 s' := by
  rw [getI24, getI24, get_put_other apart]

theorem zero_put (apart : s' ≤ s ∨ s + k ≤ i) : (p.put s k n).zero i s' = p.zero i s' := by
  unfold zero
  congr 1
  refine propext (forall_congr' fun j => forall_congr' fun above => forall_congr' fun below => ?_)
  rw [put, if_neg (by omega)]

theorem zero_zeros (from_ to_ : Nat) : zeros.zero from_ to_ = true := decide_eq_true fun _ _ _ => rfl

theorem getU_putU {w : Unsigned k} (inside : s + k ≤ payloadLen) : (p.putU s w).getU s k = w :=
  Fin.ext ((get_put_same inside).trans (Nat.mod_eq_of_lt w.isLt))

theorem getS_putS {z : Signed k} (inside : s + k ≤ payloadLen) : (p.putS s z).getS s k = z := by
  apply Subtype.ext
  have small : toTwos (256 ^ k) z < 256 ^ k := by
    have positive : (0 : Int) < (256 ^ k : Nat) := by positivity
    have := Int.emod_lt_of_pos z.val positive
    have := Int.emod_nonneg z.val positive.ne'
    unfold toTwos
    omega
  simp only [getS, putS, get_put_same inside, Nat.mod_eq_of_lt small]
  exact ofTwos_toTwos z.2.1 z.2.2

theorem getU56_putU56 {w : Unsigned 8} (inside : s + 7 ≤ payloadLen) (small : w.val ≤ maxPayloadBlock) :
    (p.putU56 s w).getU56 s = w :=
  Fin.ext ((get_put_same inside).trans (Nat.mod_eq_of_lt (by unfold maxPayloadBlock at small; omega)))

theorem getI24_putI24 {t : Int} (inside : s + 3 ≤ payloadLen) (ok : tickOk t = true) : (p.putI24 s t).getI24 s = t := by
  obtain ⟨low, high⟩ := of_decide_eq_true ok
  unfold tickBound maxTick at low high
  simp only [getI24, putI24, get_put_same inside]
  unfold toTwos ofTwos
  split <;> omega

theorem put_get (inside : s + k ≤ payloadLen) (j : Fin payloadLen) :
    q.put s k (p.get s k) j = if s ≤ j.val ∧ j.val < s + k then p j else q j := by
  unfold put
  split
  · rename_i covered
    rw [get, byte_word (by omega), at_, dif_pos (by omega)]
    congr 1
    exact Fin.ext (by simp; omega)
  · rfl

theorem putU_getU (inside : s + k ≤ payloadLen) (j : Fin payloadLen) :
    q.putU s (p.getU s k) j = if s ≤ j.val ∧ j.val < s + k then p j else q j := put_get inside j

theorem putS_getS (inside : s + k ≤ payloadLen) (j : Fin payloadLen) :
    q.putS s (p.getS s k) j = if s ≤ j.val ∧ j.val < s + k then p j else q j := by
  rw [putS, getS, toTwos_ofTwos (p.get_lt s k)]
  exact put_get inside j

theorem putU56_getU56 (inside : s + 7 ≤ payloadLen) (j : Fin payloadLen) :
    q.putU56 s (p.getU56 s) j = if s ≤ j.val ∧ j.val < s + 7 then p j else q j := put_get inside j

theorem putI24_getI24 (inside : s + 3 ≤ payloadLen) (j : Fin payloadLen) :
    q.putI24 s (p.getI24 s) j = if s ≤ j.val ∧ j.val < s + 3 then p j else q j := by
  have low : ∀ d < 3, byte (toTwos (2 ^ 32) (ofTwos (256 ^ 3) (p.get s 3))) d = byte (p.get s 3) d := by
    intro d before
    have small := p.get_lt s 3
    have same : toTwos (2 ^ 32) (ofTwos (256 ^ 3) (p.get s 3)) % 256 ^ 3 = p.get s 3 := by
      unfold toTwos ofTwos
      split <;> omega
    rw [← byte_word (f := byte _) before, word_byte, same]
  rw [← put_get inside j]
  unfold putI24 getI24 put
  split
  · exact low _ (by omega)
  · rfl

theorem putByte_at (inside : s < payloadLen) (j : Fin payloadLen) :
    q.putByte s (p.at_ s) j = if s ≤ j.val ∧ j.val < s + 1 then p j else q j := by
  rw [← put_get inside j]
  simp [putByte, get, word]

end Words

end Payload

theorem header_kind {kind sub : UInt8} (kind_small : kind.toNat < 16) (sub_small : sub.toNat < 16) :
    (kind ||| sub <<< 4) &&& 0x0f = kind ∧ (kind ||| sub <<< 4) >>> 4 = sub := by
  have all : ∀ a b : Fin 16, (UInt8.ofNat a ||| UInt8.ofNat b <<< 4) &&& 0x0f = UInt8.ofNat a ∧
      (UInt8.ofNat a ||| UInt8.ofNat b <<< 4) >>> 4 = UInt8.ofNat b := by decide +kernel
  simpa using all ⟨kind.toNat, kind_small⟩ ⟨sub.toNat, sub_small⟩

theorem header_join (b : UInt8) : (b &&& (0x0f : UInt8)) ||| (b >>> 4) <<< 4 = b := by
  have all : ∀ a : Fin 256, (UInt8.ofNat a &&& (0x0f : UInt8)) ||| (UInt8.ofNat a >>> 4) <<< 4 = UInt8.ofNat a := by decide +kernel
  simpa using all ⟨b.toNat, b.toNat_lt⟩

theorem headed_at (kind sub : UInt8) : (headed kind sub).at_ 0 = kind ||| sub <<< 4 := at_put_same (by decide)

theorem headed_apply {p : Payload} {kind sub : UInt8} (same : p.at_ 0 &&& 0x0f = kind) (rest : p.at_ 0 >>> 4 = sub)
    (j : Fin payloadLen) : headed kind sub j = if 0 ≤ j.val ∧ j.val < 0 + 1 then p j else 0 := by
  rw [headed, ← same, ← rest, header_join, putByte_at (by decide)]
  rfl

section Decode

variable {p : Payload}

theorem decode_as (kind sub : UInt8) (header : p.at_ 0 = kind ||| sub <<< 4) (kind_small : kind.toNat < 16)
    (sub_small : sub.toNat < 16) : decode p = decodeKind p kind sub := by
  obtain ⟨low, high⟩ := header_kind kind_small sub_small
  rw [decode, header, low, high]

theorem bit_small (b : Bool) : (bit b).toNat < 16 := by cases b <;> decide

theorem decode_encodeState {tick : Int} {lo liquidity : Unsigned 16} {hi : Unsigned 4} {snapshot : Bool}
    (accepted : encodeState tick lo hi liquidity snapshot = some p) :
    decode p = some (.state tick lo hi liquidity snapshot) := by
  obtain ⟨ok, ⟨⟩⟩ := ite_none_left_eq_some.mp accepted
  have ok : tickOk tick = true := by simpa using ok
  rw [decode_as evState (bit snapshot) (by simp (disch := decide) only [at_put_other, headed_at]) (by decide) (bit_small snapshot)]
  change decodeState _ _ = _
  have flag : bit snapshot &&& ~~~stateSnapshot = 0 ∧ decide (bit snapshot &&& stateSnapshot ≠ 0) = snapshot := by
    cases snapshot <;> decide
  simp (disch := decide) only [decodeState, getI24_put_other, getU_put_other,
    getU_putU, getI24_putI24 (s := 1) (by decide) ok, ok, flag]
  simp

theorem decode_encodeSwap {amount0 amount1 : Signed 16}
    (accepted : encodeSwap block amount0 amount1 = some p) : decode p = some (.swap block amount0 amount1) := by
  obtain ⟨small, ⟨⟩⟩ := ite_none_left_eq_some.mp accepted
  rw [decode_as evSwap 0 (by simp (disch := decide) only [at_put_other, headed_at]) (by decide) (by decide)]
  change decodeSwap _ 0 = _
  simp (disch := decide) only [decodeSwap, getU56_put_other, getS_put_other, getS_putS,
    getU56_putU56 (s := 1) (by decide) (not_lt.mp small)]
  simp

theorem decode_encodeFee {source : UInt8} {a b : Unsigned 4}
    (accepted : encodeFee block source a b = some p) : decode p = some (.fee block source a b) := by
  obtain ⟨ok, ⟨⟩⟩ := ite_none_left_eq_some.mp accepted
  obtain ⟨small, known⟩ := not_or.mp ok
  have low : source.toNat < 16 := by
    by_contra large
    refine known ⟨?_, ?_⟩ <;> rintro rfl <;> exact large (by decide)
  rw [decode_as evFee source (by simp (disch := decide) only [at_put_other, headed_at]) (by decide) low]
  change decodeFee _ _ = _
  simp (disch := decide) only [decodeFee, getU56_put_other, getU_put_other, getU_putU,
    zero_put, headed, zero_zeros, getU56_putU56 (s := 1) (by decide) (not_lt.mp small), known]
  simp

theorem decode_encodeLiquidity {burn : Bool} {lower upper : Int} {amount : Unsigned 16}
    (accepted : encodeLiquidity block burn lower upper amount = some p) :
    decode p = some (.liquidity block burn lower upper amount) := by
  obtain ⟨ok, ⟨⟩⟩ := ite_none_left_eq_some.mp accepted
  simp only [not_or, not_lt, Bool.not_eq_true, Bool.not_eq_false'] at ok
  obtain ⟨small, lower_ok, upper_ok, order⟩ := ok
  rw [decode_as evLiquidity (bit burn) (by simp (disch := decide) only [at_put_other, headed_at]) (by decide)
    (bit_small burn)]
  change decodeLiquidity _ _ = _
  have flag : bit burn &&& ~~~liqBurn = 0 ∧ decide (bit burn &&& liqBurn ≠ 0) = burn := by cases burn <;> decide
  simp (disch := decide) only [decodeLiquidity, getU56_put_other, getU_putU,
    getI24_put_other, zero_put, headed, zero_zeros, flag,
    getU56_putU56 (s := 1) (by decide) small, getI24_putI24 (s := 8) (by decide) lower_ok,
    getI24_putI24 (s := 11) (by decide) upper_ok, lower_ok, upper_ok, order]
  simp

theorem decode_encodeHead {timestamp : Unsigned 8} {baseFee : Unsigned 16}
    (accepted : encodeHead block timestamp baseFee = some p) : decode p = some (.head block timestamp baseFee) := by
  obtain ⟨small, ⟨⟩⟩ := ite_none_left_eq_some.mp accepted
  rw [decode_as evHead 0 (by simp (disch := decide) only [at_put_other, headed_at]) (by decide) (by decide)]
  rw [show decodeKind _ evHead 0 = decodeHead _ 0 from rfl]
  simp (disch := decide) only [decodeHead, getU56_put_other, getU_put_other, getU_putU,
    zero_put, headed, zero_zeros, getU56_putU56 (s := 1) (by decide) (not_lt.mp small)]
  simp

theorem decode_encodeGap (accepted : encodeGap block = some p) : decode p = some (.gap block) := by
  obtain ⟨small, ⟨⟩⟩ := ite_none_left_eq_some.mp accepted
  rw [decode_as evGap 0 (by simp (disch := decide) only [at_put_other, headed_at]) (by decide) (by decide)]
  rw [show decodeKind _ evGap 0 = decodeGap _ 0 from rfl]
  simp (disch := decide) only [decodeGap, zero_put, headed, zero_zeros,
    getU56_putU56 (s := 1) (by decide) (not_lt.mp small)]
  simp

theorem decode_encodeSnapshot {family dec0 dec1 : UInt8} {lo hi spacing : Int} {nodes : Unsigned 2}
    {fee : Unsigned 4} (accepted : encodeSnapshot block family lo hi nodes fee spacing dec0 dec1 = some p) :
    decode p = some (.snapshot block family lo hi nodes fee spacing dec0 dec1) := by
  obtain ⟨ok, ⟨⟩⟩ := ite_none_left_eq_some.mp accepted
  simp only [not_or, not_lt, not_le, Bool.not_eq_true, Bool.not_eq_false', gt_iff_lt, ge_iff_le] at ok
  obtain ⟨small, known, lo_ok, hi_ok, order, positive, bounded, fee_ok, dec0_ok, dec1_ok⟩ := ok
  have spacing_ok : tickOk spacing = true := decide_eq_true ⟨by unfold tickBound maxTick; omega, bounded⟩
  have low : family.toNat < 16 := by
    by_contra large
    exact known (UInt8.lt_iff_toNat_lt.mpr (lt_of_lt_of_le (by decide) (not_lt.mp large)))
  rw [decode_as evSnapshot family (by simp (disch := decide) only [at_put_other, headed_at]) (by decide) low]
  change decodeSnapshot _ _ = _
  simp (disch := decide) only [decodeSnapshot, getU56_put_other, getU_put_other, getU_putU,
    getI24_put_other, at_put_other, at_put_same, zero_put, headed, zero_zeros,
    getU56_putU56 (s := 1) (by decide) small, getI24_putI24 (s := 8) (by decide) lo_ok,
    getI24_putI24 (s := 11) (by decide) hi_ok, getI24_putI24 (s := 20) (by decide) spacing_ok, lo_ok, hi_ok]
  rw [if_neg]
  simp only [not_or, not_lt, not_le, Bool.not_eq_true, Bool.not_eq_false', gt_iff_lt, ge_iff_le]
  exact ⟨known, trivial, trivial, trivial, order, positive, bounded, fee_ok, dec0_ok, dec1_ok⟩

theorem decode_encodeTick {tick : Int} {net : Signed 16} {gross : Unsigned 16}
    (accepted : encodeTick tick net gross = some p) : decode p = some (.tick tick net gross) := by
  obtain ⟨ok, ⟨⟩⟩ := ite_none_left_eq_some.mp accepted
  have ok : tickOk tick = true := by simpa using ok
  rw [decode_as evTick 0 (by simp (disch := decide) only [at_put_other, headed_at]) (by decide) (by decide)]
  change decodeTick _ _ = _
  simp (disch := decide) only [decodeTick, getI24_put_other, getS_put_other, getU_putU,
    getS_putS, zero_put, headed, zero_zeros, getI24_putI24 (s := 1) (by decide) ok, ok]
  simp

end Decode

section Encode

variable {p : Payload} {sub : UInt8} {e : PoolEvent}

theorem getU56_le (p : Payload) (s : Nat) : ¬(p.getU56 s).val > maxPayloadBlock := by
  have := p.get_lt s 7
  unfold getU56 maxPayloadBlock
  simp only
  omega

theorem zero_apply {from_ to_ : Nat} (none : p.zero from_ to_ = true) (j : Fin payloadLen) (above : from_ ≤ j.val)
    (below : j.val < to_) : p j = 0 := of_decide_eq_true none j above below

theorem bit_flag {b : UInt8} (flag : b &&& ~~~(1 : UInt8) = 0) : bit (decide (b &&& (1 : UInt8) ≠ 0)) = b := by
  have all : ∀ a : Fin 256, UInt8.ofNat a &&& ~~~(1 : UInt8) = 0 →
      bit (decide (UInt8.ofNat a &&& (1 : UInt8) ≠ 0)) = UInt8.ofNat a := by decide +kernel
  have own := all ⟨b.toNat, b.toNat_lt⟩
  simp only [UInt8.ofNat_toNat] at own
  exact own flag

theorem encode_state (kind : p.at_ 0 &&& 0x0f = evState) (accepted : decodeState p (p.at_ 0 >>> 4) = some e) :
    encode e = some p := by
  obtain ⟨ok, ⟨⟩⟩ := ite_none_left_eq_some.mp accepted
  simp only [not_or, ne_eq, not_not, Bool.not_eq_true, Bool.not_eq_false'] at ok
  obtain ⟨flag, ok⟩ := ok
  have sub : bit (decide (p.at_ 0 >>> 4 &&& stateSnapshot ≠ 0)) = p.at_ 0 >>> 4 := bit_flag flag
  rw [encode, encodeState, ok, sub]
  simp only [Bool.not_true, Bool.false_eq_true, if_false, some.injEq]
  funext j
  have inside := j.isLt
  simp (disch := decide) only [putU_getU, putI24_getI24, headed_apply kind rfl]
  unfold payloadLen at inside
  split_ifs <;> first | rfl | omega

theorem encode_swap (kind : p.at_ 0 &&& 0x0f = evSwap) (accepted : decodeSwap p (p.at_ 0 >>> 4) = some e) :
    encode e = some p := by
  obtain ⟨ok, ⟨⟩⟩ := ite_none_left_eq_some.mp accepted
  rw [encode, encodeSwap, if_neg (getU56_le p 1), some.injEq]
  funext j
  have inside := j.isLt
  simp (disch := decide) only [putS_getS, putU56_getU56, headed_apply kind (not_not.mp ok)]
  unfold payloadLen at inside
  split_ifs <;> first | rfl | omega

theorem encode_fee (kind : p.at_ 0 &&& 0x0f = evFee) (accepted : decodeFee p (p.at_ 0 >>> 4) = some e) :
    encode e = some p := by
  obtain ⟨ok, ⟨⟩⟩ := ite_none_left_eq_some.mp accepted
  obtain ⟨known, none⟩ := not_or.mp ok
  have rest := zero_apply (by simpa using none)
  rw [encode, encodeFee, if_neg (not_or.mpr ⟨getU56_le p 1, known⟩), some.injEq]
  funext j
  have inside := j.isLt
  simp (disch := decide) only [putU_getU, putU56_getU56, headed_apply kind rfl]
  split_ifs <;> first | rfl | exact (rest j (by omega) inside).symm

theorem encode_liquidity (kind : p.at_ 0 &&& 0x0f = evLiquidity) (accepted : decodeLiquidity p (p.at_ 0 >>> 4) = some e) :
    encode e = some p := by
  obtain ⟨ok, ⟨⟩⟩ := ite_none_left_eq_some.mp accepted
  simp only [not_or, ne_eq, not_not, Bool.not_eq_true, Bool.not_eq_false'] at ok
  obtain ⟨flag, pad, tail, lower_ok, upper_ok, order⟩ := ok
  have sub : bit (decide (p.at_ 0 >>> 4 &&& liqBurn ≠ 0)) = p.at_ 0 >>> 4 := bit_flag flag
  rw [encode, encodeLiquidity, sub, if_neg (by simp only [lower_ok, upper_ok, getU56_le, order]; simp), some.injEq]
  funext j
  have inside := j.isLt
  simp (disch := decide) only [putU_getU, putU56_getU56, putI24_getI24, headed_apply kind rfl]
  split_ifs
  any_goals rfl
  rcases lt_or_ge j.val 16 with before | after
  · exact (zero_apply pad j (by omega) before).symm
  · exact (zero_apply tail j (by omega) inside).symm

theorem encode_head (kind : p.at_ 0 &&& 0x0f = evHead) (accepted : decodeHead p (p.at_ 0 >>> 4) = some e) :
    encode e = some p := by
  obtain ⟨ok, ⟨⟩⟩ := ite_none_left_eq_some.mp accepted
  obtain ⟨sub, none⟩ := not_or.mp ok
  have rest := zero_apply (by simpa using none)
  rw [encode, encodeHead, if_neg (getU56_le p 1), some.injEq]
  funext j
  have inside := j.isLt
  simp (disch := decide) only [putU_getU, putU56_getU56, headed_apply kind (not_not.mp sub)]
  split_ifs <;> first | rfl | exact (rest j (by omega) inside).symm

theorem encode_gap (kind : p.at_ 0 &&& 0x0f = evGap) (accepted : decodeGap p (p.at_ 0 >>> 4) = some e) :
    encode e = some p := by
  obtain ⟨ok, ⟨⟩⟩ := ite_none_left_eq_some.mp accepted
  obtain ⟨sub, none⟩ := not_or.mp ok
  have rest := zero_apply (by simpa using none)
  rw [encode, encodeGap, if_neg (getU56_le p 1), some.injEq]
  funext j
  have inside := j.isLt
  simp (disch := decide) only [putU56_getU56, headed_apply kind (not_not.mp sub)]
  split_ifs <;> first | rfl | exact (rest j (by omega) inside).symm

theorem encode_snapshot (kind : p.at_ 0 &&& 0x0f = evSnapshot) (accepted : decodeSnapshot p (p.at_ 0 >>> 4) = some e) :
    encode e = some p := by
  obtain ⟨ok, ⟨⟩⟩ := ite_none_left_eq_some.mp accepted
  simp only [not_or, Bool.not_eq_true, Bool.not_eq_false'] at ok
  obtain ⟨known, none, limits⟩ := ok
  have accepts := And.intro (getU56_le p 1) (And.intro known limits)
  rw [encode, encodeSnapshot, if_neg (by simpa only [not_or, Bool.not_eq_true, Bool.not_eq_false'] using accepts),
    some.injEq]
  funext j
  have inside := j.isLt
  simp (disch := decide) only [putU_getU, putU56_getU56, putI24_getI24, putByte_at, headed_apply kind rfl]
  split_ifs <;> first | rfl | exact (zero_apply none j (by omega) inside).symm

theorem encode_tick (kind : p.at_ 0 &&& 0x0f = evTick) (accepted : decodeTick p (p.at_ 0 >>> 4) = some e) :
    encode e = some p := by
  obtain ⟨ok, ⟨⟩⟩ := ite_none_left_eq_some.mp accepted
  simp only [not_or, ne_eq, not_not, Bool.not_eq_true, Bool.not_eq_false'] at ok
  obtain ⟨sub, pad, tick_ok⟩ := ok
  rw [encode, encodeTick, tick_ok]
  simp only [Bool.not_true, Bool.false_eq_true, if_false, some.injEq]
  funext j
  have inside := j.isLt
  simp (disch := decide) only [putU_getU, putS_getS, putI24_getI24, headed_apply kind sub]
  unfold payloadLen at inside
  split_ifs <;> first | rfl | exact (zero_apply pad j (by omega) (by omega)).symm

end Encode

theorem decode_encode {e : PoolEvent} {p : Payload} (accepted : encode e = some p) : decode p = some e := by
  cases e with
  | state => exact decode_encodeState accepted
  | swap => exact decode_encodeSwap accepted
  | fee => exact decode_encodeFee accepted
  | liquidity => exact decode_encodeLiquidity accepted
  | head => exact decode_encodeHead accepted
  | gap => exact decode_encodeGap accepted
  | snapshot => exact decode_encodeSnapshot accepted
  | tick => exact decode_encodeTick accepted

theorem encode_decode {p : Payload} {e : PoolEvent} (accepted : decode p = some e) : encode e = some p := by
  unfold decode decodeKind at accepted
  split_ifs at accepted with state swap fee liquidity head gap snapshot tick
  · exact encode_state state accepted
  · exact encode_swap swap accepted
  · exact encode_fee fee accepted
  · exact encode_liquidity liquidity accepted
  · exact encode_head head accepted
  · exact encode_gap gap accepted
  · exact encode_snapshot snapshot accepted
  · exact encode_tick tick accepted

/-- The codec is exact both ways, so no two payloads carry one event. -/
theorem payload_round_trips :
    (∀ e p, encode e = some p → decode p = some e) ∧ (∀ p e, decode p = some e → encode e = some p) ∧
      ∀ p q, decode p = decode q → decode p ≠ none → p = q := by
  refine ⟨fun _ _ => decode_encode, fun _ _ => encode_decode, fun p q same accepted => ?_⟩
  obtain ⟨e, read⟩ := ne_none_iff_exists'.mp accepted
  have first := encode_decode read
  have second := encode_decode (same ▸ read)
  rw [first] at second
  exact some.inj second

end TradingEngine.Amm
