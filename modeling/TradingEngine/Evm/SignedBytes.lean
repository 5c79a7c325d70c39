import TradingEngine.Evm.Tx

/-!
# What is signed is what is sent

The bytes under the signature and under the transaction hash are the canonical encodings of the transaction's fields.
-/

namespace TradingEngine.Evm

open Base (beLen natBytes bigEndian bigEndianBytes RlpItem rlpString rlpList rlpHeader rlpDecode)
open List hiding Vector

variable {v : Nat} {bytes : List Byte} {sig : Vector Byte 65}

theorem shiftBytes_eq (v n : Nat) : shiftBytes v n = bigEndianBytes n v := by
  induction n with
  | zero => rfl
  | succ n ih =>
    rw [shiftBytes, range_succ_eq_map, map_cons, map_map, bigEndianBytes, ← ih]
    congr 1
    · rw [Base.byte, Nat.shiftRight_eq_div_pow, show 8 * (n + 1 - 1 - 0) = 8 * n by omega, pow_mul]
      norm_num
    apply map_congr_left
    intro i inside
    have before := mem_range.mp inside
    simp only [Function.comp, show n + 1 - 1 - i.succ = n - 1 - i by omega]

theorem shiftBytes_beLen (v : Nat) : shiftBytes v (beLen v) = natBytes v := shiftBytes_eq v (beLen v)

theorem beLen_byte (some_ : v ≠ 0) (low : v < 256) : beLen v = 1 := by
  have upper : beLen v ≤ 1 := Base.beLen_le (by simpa using low)
  have lower := Base.beLen_pos (Nat.pos_of_ne_zero some_)
  omega

theorem natBytes_byte (some_ : v ≠ 0) (low : v < 256) : natBytes v = [UInt8.ofNat v] := by
  rw [natBytes, beLen_byte some_ low, bigEndianBytes, bigEndianBytes, Base.byte, pow_zero, Nat.div_one]

theorem rlpString_short (short : bytes.length ≤ 55) (plain : ∀ b, bytes = [b] → ¬ b < 0x80) :
    rlpString bytes = UInt8.ofNat (0x80 + bytes.length) :: bytes := by
  match bytes, plain with
  | [], _ => rfl
  | [b], plain => rw [rlpString, if_neg (plain b rfl)]; rfl
  | a :: b :: rest, _ => rw [rlpString, rlpHeader, if_pos short, singleton_append]; simp

theorem uint_eq (inWord : v < 2 ^ 128) : uint v = rlpString (natBytes v) := by
  by_cases zero : v = 0
  · subst zero
    rfl
  by_cases low : v < 0x80
  · have value : (UInt8.ofNat v).toNat = v := Base.header_byte (by omega)
    rw [uint, if_neg zero, if_pos low, natBytes_byte zero (by omega), rlpString,
      if_pos (by rw [UInt8.lt_iff_toNat_lt, value]; exact low)]
  have few : beLen v ≤ 16 := Base.beLen_le (inWord.trans_eq (by norm_num))
  rw [uint, if_neg zero, if_neg low, shiftBytes_beLen, rlpString_short, Base.natBytes_length]
  · rw [Base.natBytes_length]
    omega
  intro b single small
  have value := Base.bigEndian_natBytes v
  rw [single, Base.bigEndian_cons, UInt8.lt_iff_toNat_lt] at *
  simp [bigEndian] at value small
  omega

theorem uint_length_le (inWord : v < 2 ^ 128) : (uint v).length ≤ 17 := by
  have few : beLen v ≤ 16 := Base.beLen_le (inWord.trans_eq (by norm_num))
  unfold uint
  split_ifs
  · simp
  · simp
  · rw [length_cons, shiftBytes_eq, Base.bigEndianBytes_length]
    omega

variable (t : Transaction) (w : List Byte)

theorem natBytes_strip : natBytes (bigEndian w) = w.dropWhile (· = 0) := by
  induction w with
  | nil => rfl
  | cons b rest ih =>
    by_cases zero : b = 0
    · rw [dropWhile_cons_of_pos (by simpa using zero), ← ih, Base.bigEndian_cons, zero, UInt8.toNat_zero, zero_mul,
        zero_add]
    · rw [dropWhile_cons_of_neg (by simpa using zero), Base.natBytes_bigEndian zero]

theorem range_getD (z : Nat) : ((List.range (w.length - z)).map fun i => w.getD (z + i) 0) = w.drop z := by
  apply ext_getElem
  · simp
  · intro i inside _
    simp only [length_map, length_range] at inside
    rw [getElem_map, getElem_range, getD_eq_getElem _ _ (by omega), getElem_drop]

theorem drop_takeWhile : w.drop (w.takeWhile (· = 0)).length = w.dropWhile (· = 0) := by
  calc w.drop (w.takeWhile (· = 0)).length
      = (w.takeWhile (· = 0) ++ w.dropWhile (· = 0)).drop (w.takeWhile (· = 0)).length := by
        rw [takeWhile_append_dropWhile]
    _ = w.dropWhile (· = 0) := drop_left

theorem word_eq {w : List Byte} (size : w.length = 32) : word w = rlpString (natBytes (bigEndian w)) := by
  have rest : w.drop (w.takeWhile (· = 0)).length = natBytes (bigEndian w) := by rw [drop_takeWhile, natBytes_strip]
  have length := congrArg List.length rest
  rw [length_drop, size] at length
  have bytes := range_getD w (w.takeWhile (· = 0)).length
  rw [rest, size] at bytes
  simp only [word, bytes]
  generalize (w.takeWhile (· = 0)).length = z at *
  by_cases none_ : 32 - z = 0
  · rw [if_pos none_, eq_nil_of_length_eq_zero (length.symm.trans none_)]
    rfl
  rw [if_neg none_]
  by_cases one : 32 - z = 1
  · obtain ⟨b, single⟩ := length_eq_one_iff.mp (length.symm.trans one)
    have last : w.getD (w.length - 1) 0 = b := by
      have tail := congrArg (fun l => l.getD 0 0) rest
      rw [single, getD_cons_zero, getD_eq_getElem _ _ (by rw [length_drop]; omega), getElem_drop] at tail
      rw [getD_eq_getElem _ _ (by omega), ← tail]
      congr 1
      omega
    rw [single, last]
    by_cases low : b < 0x80
    · rw [if_pos ⟨one, low⟩, rlpString, if_pos low]
    · rw [if_neg (fun both => low both.2), one, rlpString, if_neg low]
      rfl
  · rw [if_neg (fun both => one both.1), length, rlpString_short (by omega)]
    intro b single
    rw [single, length_singleton] at length
    exact absurd length one

theorem address_eq (a : Vector Byte 20) : address a = rlpString a.toList := by
  have size : a.toList.length = 20 := Vector.length_toList
  have bytes := range_getD a.toList 0
  simp only [size, Nat.sub_zero, zero_add, drop_zero] at bytes
  rw [address, bytes, rlpString_short (by omega)]
  · rw [size]
    rfl
  · intro b single
    rw [single] at size
    cases size

theorem stringHeader_eq (data : List Byte) :
    stringHeader data.length (if data.isEmpty then 0 else data.getD 0 0) ++ data = rlpString data := by
  match data with
  | [] => rfl
  | [b] =>
    by_cases low : b < 0x80
    · rw [stringHeader, if_pos ⟨rfl, by simpa using low⟩, rlpString, if_pos low, nil_append]
    · rw [stringHeader, if_neg (fun both => low (by simpa using both.2)), rlpString, if_neg low]
      rfl
  | a :: b :: rest =>
    have long : (a :: b :: rest).length ≠ 1 := by simp
    rw [stringHeader, if_neg (fun both => long both.1), rlpString, rlpHeader, shiftBytes_beLen]
    · simp

theorem listHeader_eq (payload : List Byte) : listHeader payload.length ++ payload = rlpList payload := by
  rw [listHeader, rlpList, rlpHeader, shiftBytes_beLen]

inductive Transaction where
  | call (tx : Eip1559Tx)
  | create (tx : Eip1559Create)
  deriving DecidableEq

def intItem (v : Nat) : RlpItem := .str (natBytes v)

/-- The fields of a transaction in the order of the list; the access list is empty. -/
def itemsOf (chainId nonce prio maxFee gasLimit : Nat) (to_ : List Byte) (value : Nat) (data : List Byte) : List RlpItem :=
  [intItem chainId, intItem nonce, intItem prio, intItem maxFee, intItem gasLimit, .str to_, intItem value, .str data,
    .list []]

namespace Transaction

def prepare : Transaction → PreparedTx
  | call tx => .call tx
  | create tx => .create tx

def items : Transaction → List RlpItem
  | call tx => itemsOf tx.chainId.toNat tx.nonce.toNat tx.maxPriorityFeePerGas tx.maxFeePerGas tx.gasLimit.toNat
      tx.to_.toList tx.value tx.data.bytes
  | create tx => itemsOf tx.chainId.toNat tx.nonce.toNat tx.maxPriorityFeePerGas tx.maxFeePerGas tx.gasLimit.toNat
      [] tx.value tx.initCode.bytes

end Transaction

section Lists

variable {chainId nonce prio maxFee gasLimit value : Nat} {to_ data : List Byte} {toEnc : Enc}

def Fields.body (f : Fields) (data : List Byte) : List Byte :=
  f.head.flatten ++ (f.value ++ (f.dataHdr ++ (data ++ emptyList)))

theorem fieldsOf_payload : (fieldsOf chainId nonce prio maxFee gasLimit toEnc value data).unsignedPayload =
    ((fieldsOf chainId nonce prio maxFee gasLimit toEnc value data).body data).length := by
  simp only [fieldsOf, Fields.body, flatten_cons, flatten_nil, length_append, foldl_cons, foldl_nil, length_nil]
  omega

theorem fieldsOf_body (small : chainId < 2 ^ 128 ∧ nonce < 2 ^ 128 ∧ prio < 2 ^ 128 ∧ maxFee < 2 ^ 128 ∧
    gasLimit < 2 ^ 128 ∧ value < 2 ^ 128) (dest : toEnc = rlpString to_) :
    (fieldsOf chainId nonce prio maxFee gasLimit toEnc value data).body data =
      RlpItem.encodeAll (itemsOf chainId nonce prio maxFee gasLimit to_ value data) := by
  obtain ⟨h1, h2, h3, h4, h5, h6⟩ := small
  have string := stringHeader_eq data
  simp only [fieldsOf, Fields.body, itemsOf, intItem, RlpItem.encodeAll, RlpItem.encode, dest, uint_eq h1, uint_eq h2,
    uint_eq h3, uint_eq h4, uint_eq h5, uint_eq h6, flatten_cons, flatten_nil, append_nil, append_assoc]
  rw [← string, append_assoc]
  rfl

end Lists

theorem Transaction.body : t.prepare.f.body t.prepare.data = RlpItem.encodeAll t.items := by
  have wide : ∀ x : UInt64, x.toNat < 2 ^ 128 := fun x => x.toNat_lt.trans (by norm_num)
  cases t with
  | call tx =>
    exact fieldsOf_body ⟨wide _, wide _, tx.maxPriorityFeePerGas.2, tx.maxFeePerGas.2, wide _, tx.value.2⟩ (address_eq _)
  | create tx =>
    exact fieldsOf_body ⟨wide _, wide _, tx.maxPriorityFeePerGas.2, tx.maxFeePerGas.2, wide _, tx.value.2⟩
      (uint_eq (by norm_num))

theorem Transaction.payload : t.prepare.f.unsignedPayload = (RlpItem.encodeAll t.items).length := by
  rw [← t.body]
  cases t with
  | call tx | create tx => exact fieldsOf_payload

theorem Transaction.head : ∃ a b c d e g, t.prepare.f.head = [a, b, c, d, e, g] := by
  cases t with
  | call tx | create tx => exact ⟨_, _, _, _, _, _, rfl⟩

theorem Transaction.digestInput : t.prepare.digestInput = txType :: (RlpItem.list t.items).encode := by
  obtain ⟨a, b, c, d, e, g, head⟩ := t.head
  have body := t.body
  have header := listHeader_eq (RlpItem.encodeAll t.items)
  rw [RlpItem.encode, ← header, ← t.payload, ← body]
  simp only [PreparedTx.digestInput, Fields.body, head, getD_cons_zero, getD_cons_succ, flatten_cons,
    flatten_nil, append_nil, append_assoc, singleton_append]

theorem rlpHeader_length_le (base : Nat) {len : Nat} (inWord : len < 256 ^ 8) : (rlpHeader base len).length ≤ 9 := by
  have few := Base.beLen_word inWord
  unfold rlpHeader
  split_ifs
  · simp
  · rw [length_cons, Base.natBytes_length]
    omega

theorem rlpString_length_le (inWord : bytes.length < 256 ^ 8) : (rlpString bytes).length ≤ bytes.length + 9 := by
  unfold rlpString
  split
  · split_ifs <;> simp
  · have := rlpHeader_length_le 0x80 inWord
    rw [length_append]
    omega

section Sizes

variable {chainId nonce prio maxFee gasLimit value : Nat} {to_ data : List Byte}

theorem itemsOf_length_le (small : chainId < 2 ^ 128 ∧ nonce < 2 ^ 128 ∧ prio < 2 ^ 128 ∧ maxFee < 2 ^ 128 ∧
    gasLimit < 2 ^ 128 ∧ value < 2 ^ 128) (dest : to_.length ≤ 20) (fits : data.length < 2 ^ 63) :
    (RlpItem.encodeAll (itemsOf chainId nonce prio maxFee gasLimit to_ value data)).length ≤ 2 ^ 63 + 150 := by
  have ints : ∀ {v : Nat}, v < 2 ^ 128 → (rlpString (natBytes v)).length ≤ 17 := fun inWord =>
    uint_eq inWord ▸ uint_length_le inWord
  obtain ⟨h1, h2, h3, h4, h5, h6⟩ := small
  have e1 := ints h1
  have e2 := ints h2
  have e3 := ints h3
  have e4 := ints h4
  have e5 := ints h5
  have e6 := ints h6
  have destination := rlpString_length_le (show to_.length < 256 ^ 8 by omega)
  have calldata := rlpString_length_le (show data.length < 256 ^ 8 by omega)
  have access : (rlpList []).length = 1 := rfl
  simp only [itemsOf, intItem, RlpItem.encodeAll, RlpItem.encode, length_append, length_nil]
  omega

variable {chainId' nonce' prio' maxFee' gasLimit' value' : Nat} {to_' data' : List Byte}

theorem itemsOf_inj (same : itemsOf chainId nonce prio maxFee gasLimit to_ value data =
    itemsOf chainId' nonce' prio' maxFee' gasLimit' to_' value' data') : chainId = chainId' ∧ nonce = nonce' ∧
      prio = prio' ∧ maxFee = maxFee' ∧ gasLimit = gasLimit' ∧ to_ = to_' ∧ value = value' ∧ data = data' := by
  have ints : ∀ {a b : Nat}, intItem a = intItem b → a = b := fun equal => Base.natBytes_injective (RlpItem.str.inj equal)
  simp only [itemsOf, List.cons.injEq, and_true] at same
  obtain ⟨h1, h2, h3, h4, h5, h6, h7, h8⟩ := same
  exact ⟨ints h1, ints h2, ints h3, ints h4, ints h5, RlpItem.str.inj h6, ints h7, RlpItem.str.inj h8⟩

end Sizes

theorem Transaction.items_length : (RlpItem.encodeAll t.items).length ≤ 2 ^ 63 + 150 := by
  have wide : ∀ x : UInt64, x.toNat < 2 ^ 128 := fun x => x.toNat_lt.trans (by norm_num)
  cases t with
  | call tx =>
    exact itemsOf_length_le ⟨wide _, wide _, tx.maxPriorityFeePerGas.2, tx.maxFeePerGas.2, wide _, tx.value.2⟩
      (le_of_eq Vector.length_toList) tx.data.fits
  | create tx =>
    exact itemsOf_length_le ⟨wide _, wide _, tx.maxPriorityFeePerGas.2, tx.maxFeePerGas.2, wide _, tx.value.2⟩
      (Nat.zero_le _) tx.initCode.fits

theorem list_encode_fits {items : List RlpItem} (small : (RlpItem.encodeAll items).length ≤ 2 ^ 63 + 300) :
    (RlpItem.list items).encode.length < 256 ^ 8 := by
  have header := rlpHeader_length_le 0xc0 (show (RlpItem.encodeAll items).length < 256 ^ 8 by omega)
  rw [RlpItem.encode, rlpList, length_append]
  omega

theorem Transaction.items_injective {t u : Transaction} (same : t.items = u.items) : t = u := by
  cases t with
  | call tx =>
    cases u with
    | call ux =>
      obtain ⟨chain, nonce, prio, fee, gas, dest, value, data⟩ := itemsOf_inj same
      congr 1
      rw [Eip1559Tx.mk.injEq]
      exact ⟨UInt64.toNat_inj.mp chain, UInt64.toNat_inj.mp nonce, Fin.ext prio, Fin.ext fee, UInt64.toNat_inj.mp gas,
        Vector.toList_inj.mp dest, Fin.ext value, Calldata.ext data⟩
    | create ux =>
      obtain ⟨_, _, _, _, _, dest, _⟩ := itemsOf_inj same
      have size : tx.to_.toList.length = 20 := Vector.length_toList
      rw [dest] at size
      cases size
  | create tx =>
    cases u with
    | call ux =>
      obtain ⟨_, _, _, _, _, dest, _⟩ := itemsOf_inj same
      have size : ux.to_.toList.length = 20 := Vector.length_toList
      rw [← dest] at size
      cases size
    | create ux =>
      obtain ⟨chain, nonce, prio, fee, gas, _, value, data⟩ := itemsOf_inj same
      congr 1
      rw [Eip1559Create.mk.injEq]
      exact ⟨UInt64.toNat_inj.mp chain, UInt64.toNat_inj.mp nonce, Fin.ext prio, Fin.ext fee, UInt64.toNat_inj.mp gas,
        Fin.ext value, Calldata.ext data⟩

def sigV (sig : Vector Byte 65) : Byte := sig.toList.getD 64 0

/-- Parity, `r` and `s` as integers. -/
def sigItems (sig : Vector Byte 65) : List RlpItem :=
  [intItem (if sigV sig = 27 then 0 else 1), intItem (bigEndian (sig.toList.take 32)),
    intItem (bigEndian ((sig.toList.drop 32).take 32))]

theorem sigFields_def (sig : Vector Byte 65) : sigFields sig = if sigV sig ≠ 27 ∧ sigV sig ≠ 28 then .error .badSignature
    else .ok [uint (yParityFromV (sigV sig)).toNat, word ((sig.toList.take 64).take 32),
      word ((sig.toList.take 64).drop 32)] := rfl

theorem sigFields_eq (valid : sigV sig = 27 ∨ sigV sig = 28) :
    ∃ a b c, sigFields sig = .ok [a, b, c] ∧ a ++ (b ++ c) = RlpItem.encodeAll (sigItems sig) := by
  have size : sig.toList.length = 65 := Vector.length_toList
  have known : ¬ (sigV sig ≠ 27 ∧ sigV sig ≠ 28) := by tauto
  have parity : (yParityFromV (sigV sig)).toNat = if sigV sig = 27 then 0 else 1 := by
    rcases valid with low | high
    · rw [low]
      rfl
    · rw [high]
      rfl
  have first : (sig.toList.take 64).take 32 = sig.toList.take 32 := by rw [take_take]; rfl
  have second : (sig.toList.take 64).drop 32 = (sig.toList.drop 32).take 32 := by rw [drop_take]
  refine ⟨uint (if sigV sig = 27 then 0 else 1), word (sig.toList.take 32), word ((sig.toList.drop 32).take 32), ?_, ?_⟩
  · rw [sigFields_def, if_neg known, parity, first, second]
  · rw [uint_eq (by split <;> norm_num), word_eq (by rw [length_take]; omega),
      word_eq (by rw [length_take, length_drop]; omega)]
    simp only [sigItems, intItem, RlpItem.encodeAll, RlpItem.encode, append_nil]

theorem sigFields_refused (low : sigV sig ≠ 27) (high : sigV sig ≠ 28) : sigFields sig = .error .badSignature := by
  rw [sigFields_def, if_pos ⟨low, high⟩]

theorem Transaction.signed_eq (valid : sigV sig = 27 ∨ sigV sig = 28) :
    ∃ st, t.prepare.signed sig = .ok st ∧ st.hashInput = txType :: (RlpItem.list (t.items ++ sigItems sig)).encode ∧
      st.hexLen = 2 + 2 * st.hashInput.length ∧ st.p = t.prepare := by
  obtain ⟨x, y, z, okay, appended⟩ := sigFields_eq valid
  obtain ⟨a, b, c, d, e, g, head⟩ := t.head
  have body := t.body
  have payload : t.prepare.f.unsignedPayload + x.length + y.length + z.length =
      (RlpItem.encodeAll (t.items ++ sigItems sig)).length := by
    rw [RlpItem.encodeAll_append, ← appended, t.payload]
    simp only [length_append]
    omega
  refine ⟨_, by rw [PreparedTx.signed, okay]; rfl, ?_, ?_, rfl⟩
  · simp only [getD_cons_zero, getD_cons_succ]
    rw [payload, RlpItem.encode, ← listHeader_eq, RlpItem.encodeAll_append, ← body, ← appended]
    simp only [SignedTx.hashInput, Fields.body, head, getD_cons_zero, getD_cons_succ, flatten_cons,
      flatten_nil, append_nil, append_assoc, singleton_append]
  · have parts := congrArg List.length body
    rw [← t.payload] at parts
    simp only [SignedTx.hexLen, SignedTx.hashInput, Fields.body, head, getD_cons_zero, getD_cons_succ,
      flatten_cons, flatten_nil, append_nil, length_append, length_singleton] at parts ⊢
    omega

def hexText (bytes : List Byte) : List Byte :=
  bytes.flatMap fun b : Byte => [hex.getD (b >>> 4).toNat 0, hex.getD (b &&& 0x0f).toNat 0]

theorem set_two {front rest : List Byte} {x y a b : Byte} :
    ((front ++ x :: y :: rest).set front.length a).set (front.length + 1) b = front ++ a :: b :: rest := by
  rw [set_append_right _ _ (le_refl _), Nat.sub_self, set_cons_zero,
    set_append_right _ _ (Nat.le_add_right _ _), Nat.add_sub_cancel_left, set_cons_succ, set_cons_zero]

theorem put_append (w : HexOut) (a b : List Byte) : (w.put a).put b = w.put (a ++ b) := foldl_append.symm

theorem foldl_put (w : HexOut) (parts : List (List Byte)) : parts.foldl HexOut.put w = w.put parts.flatten := by
  induction parts generalizing w with
  | nil => rfl
  | cons part parts ih => rw [foldl_cons, ih, put_append, flatten_cons]

theorem put_eq (front rest : List Byte) (room : 2 * bytes.length ≤ rest.length) :
    (HexOut.put ⟨front ++ rest, front.length⟩ bytes).dst = front ++ (hexText bytes ++ rest.drop (2 * bytes.length)) := by
  induction bytes generalizing front rest with
  | nil => rfl
  | cons b bytes ih =>
    rw [length_cons] at room
    match rest, room with
    | [], room => simp at room
    | [x], room => simp at room; omega
    | x :: y :: rest, room =>
      simp only [length_cons] at room
      have next := ih (front ++ [hex.getD (b >>> 4).toNat 0, hex.getD (b &&& 0x0f).toNat 0]) rest (by omega)
      rw [append_assoc, length_append] at next
      rw [HexOut.put, foldl_cons, ← HexOut.put, HexOut.putByte, set_two]
      refine next.trans ?_
      rw [hexText, hexText, flatMap_cons, append_assoc, append_assoc, length_cons,
        show 2 * (bytes.length + 1) = 2 * bytes.length + 2 by omega, drop_succ_cons, drop_succ_cons]

theorem Transaction.renderHex {st : SignedTx} (prepared : st.p = t.prepare)
    (length : st.hexLen = 2 + 2 * st.hashInput.length) (dst : List Byte) : st.renderHex dst =
      if dst.length < st.hexLen then (.error .bufferTooSmall, dst)
      else (.ok st.hexLen, [48, 120] ++ (hexText st.hashInput ++ dst.drop st.hexLen)) := by
  rw [SignedTx.renderHex]
  by_cases tight : dst.length < st.hexLen
  · rw [if_pos tight, if_pos tight]
  rw [if_neg tight, if_neg tight]
  obtain ⟨a, b, c, d, e, g, head⟩ := t.head
  rw [← prepared] at head
  have whole : st.hashInput = [txType] ++ st.lh ++ st.p.f.head.flatten ++ st.p.f.value ++ st.p.f.dataHdr ++ st.p.data ++
      emptyList ++ st.s.getD 0 [] ++ st.s.getD 1 [] ++ st.s.getD 2 [] := by
    simp only [SignedTx.hashInput, head, getD_cons_zero, getD_cons_succ, flatten_cons, flatten_nil,
      append_nil, append_assoc]
  simp only [foldl_put, put_append, ← whole]
  match dst, tight with
  | [], tight => rw [length, length_nil] at tight; omega
  | [x], tight => rw [length, length_singleton] at tight; omega
  | x :: y :: rest, tight =>
    rw [length] at tight ⊢
    simp only [length_cons] at tight
    have written := put_eq [48, 120] rest (show 2 * st.hashInput.length ≤ rest.length by omega)
    have shift : (x :: y :: rest).drop (2 + 2 * st.hashInput.length) = rest.drop (2 * st.hashInput.length) := by
      rw [Nat.add_comm, drop_succ_cons, drop_succ_cons]
    rw [shift]
    exact congrArg (Prod.mk _) written

/-- The bytes under the signature are the canonical list of the transaction's fields, which decode to them and are no
other transaction's; the bytes under the hash are that list with the signature appended; and the render is their hex. -/
theorem signed_is_sent (t : Transaction) :
    t.prepare.digestInput = txType :: (RlpItem.list t.items).encode ∧
    rlpDecode (RlpItem.list t.items).encode.length (RlpItem.list t.items).encode = some [.list t.items] ∧
    (∀ u : Transaction, u.prepare.digestInput = t.prepare.digestInput → u = t) ∧
    (∀ sig : Vector Byte 65, sigV sig ≠ 27 → sigV sig ≠ 28 → t.prepare.signed sig = .error .badSignature) ∧
    ∀ sig : Vector Byte 65, sigV sig = 27 ∨ sigV sig = 28 → ∃ st, t.prepare.signed sig = .ok st ∧
      st.hashInput = txType :: (RlpItem.list (t.items ++ sigItems sig)).encode ∧
      st.hexLen = 2 + 2 * st.hashInput.length ∧
      ∀ dst, st.renderHex dst = if dst.length < st.hexLen then (.error .bufferTooSmall, dst)
        else (.ok st.hexLen, [48, 120] ++ (hexText st.hashInput ++ dst.drop st.hexLen)) := by
  have fits : ∀ u : Transaction, (RlpItem.list u.items).encode.length < 256 ^ 8 := fun u =>
    list_encode_fits (u.items_length.trans (by omega))
  refine ⟨t.digestInput, ?_, ?_, ?_, ?_⟩
  · have small : (RlpItem.encodeAll [RlpItem.list t.items]).length < 256 ^ 8 := by
      rw [RlpItem.encodeAll_singleton]
      exact fits t
    have decoded := Base.rlpDecode_encodeAll (le_refl _) small
    rwa [RlpItem.encodeAll_singleton] at decoded
  · intro u same
    rw [t.digestInput, u.digestInput] at same
    have equal := RlpItem.encode_injective (fits u) (List.cons.inj same).2
    exact Transaction.items_injective (RlpItem.list.inj equal)
  · intro sig low high
    rw [PreparedTx.signed, sigFields_refused low high]
    rfl
  · intro sig valid
    obtain ⟨st, okay, hashed, length, prepared⟩ := t.signed_eq valid
    exact ⟨st, okay, hashed, length, t.renderHex prepared length⟩

/-- A call to the zero address, and the creation with the same other fields. -/
def zeroCall : Eip1559Tx := ⟨999, 0, 1, 2, 21000, Vector.replicate 20 0, 0, ⟨[], by decide⟩⟩

def zeroCreate : Eip1559Create := ⟨999, 0, 1, 2, 21000, 0, ⟨[], by decide⟩⟩

theorem zero_call_is_no_creation :
    (Transaction.create zeroCreate).prepare.digestInput ≠ (Transaction.call zeroCall).prepare.digestInput ∧
    ∃ st, (Transaction.call zeroCall).prepare.signed (Vector.replicate 65 27) = .ok st ∧
      st.hexLen = 2 + 2 * st.hashInput.length := by
  constructor
  · intro same
    exact nomatch (signed_is_sent (.call zeroCall)).2.2.1 (.create zeroCreate) same
  · obtain ⟨st, okay, _, length, _⟩ := (signed_is_sent (.call zeroCall)).2.2.2.2 (Vector.replicate 65 27) (.inl (by decide))
    exact ⟨st, okay, length⟩

end TradingEngine.Evm
