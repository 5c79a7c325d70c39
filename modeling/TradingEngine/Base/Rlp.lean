import TradingEngine.Base.Bytes

/-!
# Recursive length prefix

Byte strings and lists of items, each behind a header that gives its length; the decoder takes canonical headers only.
-/

namespace TradingEngine.Base

open List Option

def beLen (n : Nat) : Nat := (Nat.size n + 7) / 8

/-- The big-endian bytes of a number, none of them a leading zero. -/
def natBytes (n : Nat) : List UInt8 := bigEndianBytes (beLen n) n

variable (n : Nat) (bytes : List UInt8)

theorem lt_pow_beLen : n < 256 ^ beLen n := by
  have below := Nat.lt_size_self n
  have wide : Nat.size n ≤ 8 * beLen n := by
    unfold beLen
    omega
  calc n < 2 ^ Nat.size n := below
    _ ≤ 2 ^ (8 * beLen n) := Nat.pow_le_pow_right (by decide) wide
    _ = 256 ^ beLen n := by rw [pow_mul]; norm_num

theorem pow_beLen_le {n k : Nat} (inside : k < beLen n) : 256 ^ k ≤ n := by
  have long : 8 * k < Nat.size n := by
    unfold beLen at inside
    omega
  calc 256 ^ k = 2 ^ (8 * k) := by rw [pow_mul]; norm_num
    _ ≤ n := Nat.lt_size.mp long

theorem beLen_le {n k : Nat} (small : n < 256 ^ k) : beLen n ≤ k := by
  by_contra longer
  exact absurd (pow_beLen_le (not_le.mp longer)) (not_le.mpr small)

@[simp] theorem natBytes_length : (natBytes n).length = beLen n := bigEndianBytes_length _ _

theorem bigEndian_natBytes : bigEndian (natBytes n) = n := by
  rw [natBytes, bigEndian_bytes, Nat.mod_eq_of_lt (lt_pow_beLen n)]

theorem natBytes_injective : Function.Injective natBytes := Function.LeftInverse.injective bigEndian_natBytes

theorem bigEndian_cons (b : UInt8) (rest : List UInt8) :
    bigEndian (b :: rest) = b.toNat * 256 ^ rest.length + bigEndian rest := by
  have from_ : ∀ acc, rest.foldl (fun n b => n * 256 + b.toNat) acc =
      acc * 256 ^ rest.length + rest.foldl (fun n b => n * 256 + b.toNat) 0 := by
    induction rest with
    | nil => intro acc; simp
    | cons b rest ih =>
      intro acc
      rw [foldl_cons, foldl_cons, ih, ih (0 * 256 + b.toNat), length_cons, pow_succ]
      ring
  rw [bigEndian, foldl_cons, from_, zero_mul, zero_add]
  rfl

theorem bigEndian_lt : bigEndian bytes < 256 ^ bytes.length := by
  induction bytes with
  | nil => decide
  | cons b rest ih =>
    have top : b.toNat * 256 ^ rest.length ≤ 255 * 256 ^ rest.length :=
      Nat.mul_le_mul_right _ (by have := b.toNat_lt; omega)
    rw [bigEndian_cons, length_cons, pow_succ]
    omega

theorem bigEndianBytes_bigEndian : bigEndianBytes bytes.length (bigEndian bytes) = bytes := by
  induction bytes with
  | nil => rfl
  | cons b rest ih =>
    have below := bigEndian_lt rest
    have lower : ∀ k ≤ rest.length, bigEndianBytes k (b.toNat * 256 ^ rest.length + bigEndian rest) =
        bigEndianBytes k (bigEndian rest) := by
      intro k inside
      induction k with
      | zero => rfl
      | succ k ih =>
        rw [bigEndianBytes, bigEndianBytes, ih (by omega)]
        congr 1
        apply UInt8.toNat_inj.mp
        obtain ⟨d, far⟩ := Nat.exists_eq_add_of_lt (show k < rest.length by omega)
        rw [byte_toNat, byte_toNat, far, show b.toNat * 256 ^ (k + d + 1) = 256 ^ k * (256 * (b.toNat * 256 ^ d)) by ring,
          Nat.mul_add_div (by positivity), Nat.mul_add_mod]
    rw [length_cons, bigEndianBytes, bigEndian_cons, lower _ (le_refl _), ih]
    congr 1
    apply UInt8.toNat_inj.mp
    rw [byte_toNat, mul_comm, Nat.mul_add_div (by positivity), Nat.div_eq_of_lt below, add_zero]
    exact Nat.mod_eq_of_lt b.toNat_lt

theorem natBytes_bigEndian {b : UInt8} {rest : List UInt8} (lead : b ≠ 0) :
    natBytes (bigEndian (b :: rest)) = b :: rest := by
  have some_ : 0 < b.toNat := Nat.pos_of_ne_zero fun zero => lead (UInt8.toNat_inj.mp zero)
  have large : 256 ^ rest.length ≤ bigEndian (b :: rest) := by
    rw [bigEndian_cons]
    calc 256 ^ rest.length = 1 * 256 ^ rest.length := (one_mul _).symm
      _ ≤ b.toNat * 256 ^ rest.length := Nat.mul_le_mul_right _ some_
      _ ≤ _ := Nat.le_add_right _ _
  have exactly : beLen (bigEndian (b :: rest)) = (b :: rest).length := by
    apply Nat.le_antisymm (beLen_le (bigEndian_lt _))
    by_contra shorter
    have upper := lt_pow_beLen (bigEndian (b :: rest))
    have narrow : beLen (bigEndian (b :: rest)) ≤ rest.length := by
      rw [length_cons] at shorter
      omega
    exact absurd (upper.trans_le (Nat.pow_le_pow_right (by decide) narrow)) (not_lt.mpr large)
  rw [natBytes, exactly, bigEndianBytes_bigEndian]

theorem natBytes_head {n : Nat} {b : UInt8} {rest : List UInt8} (bytes : natBytes n = b :: rest) : b ≠ 0 := by
  intro zero
  have length := natBytes_length n
  rw [bytes, length_cons] at length
  have value := bigEndian_natBytes n
  rw [bytes, bigEndian_cons, zero] at value
  have large := pow_beLen_le (show rest.length < beLen n by omega)
  have small := bigEndian_lt rest
  simp only [UInt8.toNat_zero, zero_mul, zero_add] at value
  omega

inductive RlpItem where
  | str (bytes : List UInt8)
  | list (items : List RlpItem)

/-- The header of `len` bytes: one byte up to 55, else the length behind a byte that counts its bytes. -/
def rlpHeader (base len : Nat) : List UInt8 :=
  if len ≤ 55 then [UInt8.ofNat (base + len)] else UInt8.ofNat (base + 55 + beLen len) :: natBytes len

/-- A byte string behind its header; a single byte below 0x80 has none. -/
def rlpString : List UInt8 → List UInt8
  | [b] => if b < 0x80 then [b] else [0x81, b]
  | bytes => rlpHeader 0x80 bytes.length ++ bytes

def rlpList (payload : List UInt8) : List UInt8 := rlpHeader 0xc0 payload.length ++ payload

mutual

def RlpItem.encode : RlpItem → List UInt8
  | .str bytes => rlpString bytes
  | .list items => rlpList (RlpItem.encodeAll items)

def RlpItem.encodeAll : List RlpItem → List UInt8
  | [] => []
  | item :: rest => item.encode ++ RlpItem.encodeAll rest

end

/-- `n` bytes off the front. -/
def rlpTake (n : Nat) (bytes : List UInt8) : Option (List UInt8 × List UInt8) :=
  if n ≤ bytes.length then some (bytes.take n, bytes.drop n) else none

/-- A long length: `k` bytes without leading zero that give at least 56. -/
def rlpLong (k : Nat) (bytes : List UInt8) : Option (List UInt8 × List UInt8) :=
  (rlpTake k bytes).bind fun (field, rest) =>
    if field.head? ≠ some 0 ∧ 55 < bigEndian field then rlpTake (bigEndian field) rest else none

/-- The first item: whether it is a list, its payload, and what follows it. -/
def rlpSplit : List UInt8 → Option (Bool × List UInt8 × List UInt8)
  | [] => none
  | b :: rest =>
    if b < 0x80 then some (false, [b], rest)
    else if b ≤ 0xb7 then
      (rlpTake (b.toNat - 0x80) rest).bind fun (payload, rest) =>
        -- a byte that is its own encoding takes no header
        if payload.length = 1 ∧ payload.headD 0 < 0x80 then none else some (false, payload, rest)
    else if b ≤ 0xbf then (rlpLong (b.toNat - 0xb7) rest).map fun (payload, rest) => (false, payload, rest)
    else if b ≤ 0xf7 then (rlpTake (b.toNat - 0xc0) rest).map fun (payload, rest) => (true, payload, rest)
    else (rlpLong (b.toNat - 0xf7) rest).map fun (payload, rest) => (true, payload, rest)

def rlpDecode : Nat → List UInt8 → Option (List RlpItem)
  | _, [] => some []
  | 0, _ :: _ => none
  | fuel + 1, b :: bytes =>
    (rlpSplit (b :: bytes)).bind fun (isList, payload, rest) =>
      (rlpDecode fuel rest).bind fun later =>
        if isList then (rlpDecode fuel payload).map fun items => .list items :: later
        else some (.str payload :: later)

theorem rlpTake_append (front rest : List UInt8) : rlpTake front.length (front ++ rest) = some (front, rest) := by
  rw [rlpTake, if_pos (by simp), take_left, drop_left]

theorem rlpLong_natBytes {len : Nat} {payload rest : List UInt8} (length : payload.length = len) (long : 55 < len) :
    rlpLong (beLen len) (natBytes len ++ (payload ++ rest)) = some (payload, rest) := by
  have field := rlpTake_append (natBytes len) (payload ++ rest)
  rw [natBytes_length] at field
  have lead : (natBytes len).head? ≠ some 0 := by
    intro zero
    obtain ⟨tail, bytes⟩ := head?_eq_some_iff.mp zero
    exact natBytes_head bytes rfl
  rw [rlpLong, field, bind_some]
  simp only [bigEndian_natBytes]
  rw [if_pos ⟨lead, long⟩, ← length]
  exact rlpTake_append payload rest

theorem header_byte {n : Nat} (small : n < 256) : (UInt8.ofNat n).toNat = n := by
  rw [UInt8.toNat_ofNat']
  exact Nat.mod_eq_of_lt small

theorem beLen_word {len : Nat} (inWord : len < 256 ^ 8) : beLen len ≤ 8 := beLen_le inWord

theorem beLen_pos {len : Nat} (some_ : 0 < len) : 0 < beLen len := by
  by_contra none_
  have below := lt_pow_beLen len
  rw [Nat.eq_zero_of_not_pos none_] at below
  omega

theorem rlpSplit_string {bytes : List UInt8} (inWord : bytes.length < 256 ^ 8) (rest : List UInt8) :
    rlpSplit (rlpString bytes ++ rest) = some (false, bytes, rest) := by
  by_cases single : ∃ b, bytes = [b]
  · obtain ⟨b, rfl⟩ := single
    by_cases low : b < 0x80
    · rw [rlpString, if_pos low, singleton_append, rlpSplit, if_pos low]
    rw [rlpString, if_neg low]
    have taken := rlpTake_append [b] rest
    rw [cons_append, rlpSplit, if_neg (by decide), if_pos (by decide)]
    change ((rlpTake [b].length ([b] ++ rest)).bind _) = _
    rw [taken, bind_some]
    simp only [length_singleton, headD_cons, true_and]
    rw [if_neg low]
  · have form : rlpString bytes = rlpHeader 0x80 bytes.length ++ bytes := by
      match bytes, single with
      | [], _ => rfl
      | [b], single => exact absurd ⟨b, rfl⟩ single
      | _ :: _ :: _, _ => rfl
    have notOne : bytes.length ≠ 1 := fun one => single (length_eq_one_iff.mp one)
    rw [form, append_assoc]
    by_cases short : bytes.length ≤ 55
    · have value := header_byte (show 0x80 + bytes.length < 256 by omega)
      rw [rlpHeader, if_pos short, singleton_append, rlpSplit]
      simp only [UInt8.lt_iff_toNat_lt, UInt8.le_iff_toNat_le, UInt8.reduceToNat, value]
      rw [if_neg (by omega), if_pos (by omega), Nat.add_sub_cancel_left, rlpTake_append, bind_some]
      simp only
      rw [if_neg (fun one => notOne one.1)]
    · have few := beLen_word inWord
      have some_ := beLen_pos (show 0 < bytes.length by omega)
      have value := header_byte (show 0x80 + 55 + beLen bytes.length < 256 by omega)
      rw [rlpHeader, if_neg short, cons_append, rlpSplit]
      simp only [UInt8.lt_iff_toNat_lt, UInt8.le_iff_toNat_le, UInt8.reduceToNat, value]
      rw [if_neg (by omega), if_neg (by omega),
        if_pos (by omega), show 0x80 + 55 + beLen bytes.length - 0xb7 = beLen bytes.length by omega, rlpLong_natBytes rfl (by omega)]
      rfl

theorem rlpSplit_list {payload : List UInt8} (inWord : payload.length < 256 ^ 8) (rest : List UInt8) :
    rlpSplit (rlpList payload ++ rest) = some (true, payload, rest) := by
  rw [rlpList, append_assoc]
  by_cases short : payload.length ≤ 55
  · have value := header_byte (show 0xc0 + payload.length < 256 by omega)
    rw [rlpHeader, if_pos short, singleton_append, rlpSplit]
    simp only [UInt8.lt_iff_toNat_lt, UInt8.le_iff_toNat_le, UInt8.reduceToNat, value]
    rw [if_neg (by omega), if_neg (by omega), if_neg (by omega), if_pos (by omega), Nat.add_sub_cancel_left, rlpTake_append]
    rfl
  · have few := beLen_word inWord
    have some_ := beLen_pos (show 0 < payload.length by omega)
    have value := header_byte (show 0xc0 + 55 + beLen payload.length < 256 by omega)
    rw [rlpHeader, if_neg short, cons_append, rlpSplit]
    simp only [UInt8.lt_iff_toNat_lt, UInt8.le_iff_toNat_le, UInt8.reduceToNat, value]
    rw [if_neg (by omega), if_neg (by omega),
      if_neg (by omega), if_neg (by omega), show 0xc0 + 55 + beLen payload.length - 0xf7 = beLen payload.length by omega, rlpLong_natBytes rfl (by omega)]
    rfl

theorem rlpHeader_length_pos (base len : Nat) : 0 < (rlpHeader base len).length := by
  unfold rlpHeader
  split_ifs <;> simp

theorem rlpString_length : bytes.length ≤ (rlpString bytes).length ∧ 0 < (rlpString bytes).length := by
  unfold rlpString
  split
  · split_ifs <;> simp
  · rw [length_append]
    have := rlpHeader_length_pos 0x80 bytes.length
    omega

theorem rlpList_length (payload : List UInt8) : payload.length < (rlpList payload).length := by
  rw [rlpList, length_append]
  have := rlpHeader_length_pos 0xc0 payload.length
  omega

theorem rlpDecode_split {fuel : Nat} {bytes payload rest : List UInt8} {isList : Bool} (some_ : 0 < bytes.length)
    (split : rlpSplit bytes = some (isList, payload, rest)) : rlpDecode (fuel + 1) bytes =
      (rlpDecode fuel rest).bind fun later =>
        if isList then (rlpDecode fuel payload).map fun items => .list items :: later
        else some (.str payload :: later) := by
  cases bytes with
  | nil => cases some_
  | cons b bytes => rw [rlpDecode, split, bind_some]

theorem rlpDecode_encodeAll {fuel : Nat} {items : List RlpItem} (enough : (RlpItem.encodeAll items).length ≤ fuel)
    (inWord : (RlpItem.encodeAll items).length < 256 ^ 8) : rlpDecode fuel (RlpItem.encodeAll items) = some items := by
  induction fuel generalizing items with
  | zero =>
    cases items with
    | nil => rw [RlpItem.encodeAll, rlpDecode]
    | cons item rest =>
      rw [RlpItem.encodeAll, length_append] at enough
      cases item with
      | str bytes =>
        have := (rlpString_length bytes).2
        rw [RlpItem.encode] at enough
        omega
      | list items =>
        have := rlpList_length (RlpItem.encodeAll items)
        rw [RlpItem.encode] at enough
        omega
  | succ fuel ih =>
    cases items with
    | nil => rw [RlpItem.encodeAll, rlpDecode]
    | cons item rest =>
      rw [RlpItem.encodeAll] at enough inWord ⊢
      rw [length_append] at enough inWord
      cases item with
      | str bytes =>
        rw [RlpItem.encode] at enough inWord ⊢
        obtain ⟨whole, some_⟩ := rlpString_length bytes
        rw [rlpDecode_split (by rw [length_append]; omega) (rlpSplit_string (by omega) _), ih (by omega) (by omega)]
        rfl
      | list items =>
        rw [RlpItem.encode] at enough inWord ⊢
        have inside := rlpList_length (RlpItem.encodeAll items)
        rw [rlpDecode_split (by rw [length_append]; omega) (rlpSplit_list (by omega) _), ih (by omega) (by omega),
          bind_some, if_pos rfl, ih (by omega) (by omega)]
        rfl

theorem RlpItem.encodeAll_singleton (item : RlpItem) : RlpItem.encodeAll [item] = item.encode := by
  rw [RlpItem.encodeAll, RlpItem.encodeAll, append_nil]

theorem RlpItem.encodeAll_append (a b : List RlpItem) :
    RlpItem.encodeAll (a ++ b) = RlpItem.encodeAll a ++ RlpItem.encodeAll b := by
  induction a with
  | nil => rw [nil_append, RlpItem.encodeAll, nil_append]
  | cons item rest ih => rw [cons_append, RlpItem.encodeAll, RlpItem.encodeAll, ih, append_assoc]

theorem RlpItem.encode_injective {a b : RlpItem} (inWord : a.encode.length < 256 ^ 8) (same : a.encode = b.encode) :
    a = b := by
  rw [← RlpItem.encodeAll_singleton, ← RlpItem.encodeAll_singleton b] at same
  rw [← RlpItem.encodeAll_singleton] at inWord
  have first := rlpDecode_encodeAll (le_refl _) inWord
  have second := rlpDecode_encodeAll (le_refl _) (same ▸ inWord)
  rw [same, second] at first
  exact (cons.inj (some.inj first)).1.symm

end TradingEngine.Base
