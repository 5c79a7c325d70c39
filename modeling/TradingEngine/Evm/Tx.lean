import TradingEngine.Base.Rlp

/-!
# Dynamic-fee transactions

The fields of a call or a contract creation, encoded once; the bytes that are hashed for the signature and for the
transaction hash; and the hex render of the signed form.
-/

namespace TradingEngine.Evm

open Base (beLen)

abbrev Byte := UInt8

abbrev Enc := List Byte

/-- The `n` low bytes of `v`, high byte first. -/
def shiftBytes (v n : Nat) : List Byte := (List.range n).map fun i => UInt8.ofNat (v >>> (8 * (n - 1 - i)))

def uint (v : Nat) : Enc :=
  if v = 0 then [0x80]
  else if v < 0x80 then [UInt8.ofNat v]
  else UInt8.ofNat (0x80 + beLen v) :: shiftBytes v (beLen v)

def word (w : List Byte) : Enc :=
  let z := (w.takeWhile (· = 0)).length
  let n := 32 - z
  if n = 0 then [0x80]
  else if n = 1 ∧ w.getD (w.length - 1) 0 < 0x80 then [w.getD (w.length - 1) 0]
  else UInt8.ofNat (0x80 + n) :: (List.range n).map fun i => w.getD (z + i) 0

def address (a : Vector Byte 20) : Enc := 0x94 :: (List.range 20).map fun i => a.toList.getD i 0

/-- `first` is the first byte of the string, read only where `len` is one. -/
def stringHeader (len : Nat) (first : Byte) : Enc :=
  if len = 1 ∧ first < 0x80 then []
  else if len ≤ 55 then [UInt8.ofNat (0x80 + len)]
  else UInt8.ofNat (0xb7 + beLen len) :: shiftBytes len (beLen len)

def listHeader (payload : Nat) : Enc :=
  if payload ≤ 55 then [UInt8.ofNat (0xc0 + payload)]
  else UInt8.ofNat (0xf7 + beLen payload) :: shiftBytes payload (beLen payload)

def txType : Byte := 0x02

def emptyList : List Byte := [0xc0]

/-- A slice of bytes: no slice is longer than half the address space. -/
@[ext]
structure Calldata where
  bytes : List Byte
  fits : bytes.length < 2 ^ 63
  deriving DecidableEq

structure Eip1559Tx where
  chainId : UInt64
  nonce : UInt64
  maxPriorityFeePerGas : Fin (2 ^ 128)
  maxFeePerGas : Fin (2 ^ 128)
  gasLimit : UInt64
  to_ : Vector Byte 20
  value : Fin (2 ^ 128)
  data : Calldata
  deriving DecidableEq

structure Eip1559Create where
  chainId : UInt64
  nonce : UInt64
  maxPriorityFeePerGas : Fin (2 ^ 128)
  maxFeePerGas : Fin (2 ^ 128)
  gasLimit : UInt64
  value : Fin (2 ^ 128)
  initCode : Calldata
  deriving DecidableEq

inductive EvmTxErr where
  | bufferTooSmall
  | badSignature
  deriving DecidableEq, Repr

structure Fields where
  /-- Chain id, nonce, priority fee, fee cap, gas limit, destination. -/
  head : List Enc
  value : Enc
  dataHdr : Enc
  unsignedPayload : Nat
  deriving DecidableEq

def fieldsOf (chainId nonce prio maxFee gasLimit : Nat) (to_ : Enc) (value : Nat) (data : List Byte) : Fields :=
  let head := [uint chainId, uint nonce, uint prio, uint maxFee, uint gasLimit, to_]
  let value := uint value
  let first := if data.isEmpty then 0 else data.getD 0 0
  let dataHdr := stringHeader data.length first
  let payload := head.foldl (fun payload item => payload + item.length) 0
  { head, value, dataHdr
    unsignedPayload := payload + (value.length + dataHdr.length + data.length + emptyList.length) }

def fields (tx : Eip1559Tx) : Fields :=
  fieldsOf tx.chainId.toNat tx.nonce.toNat tx.maxPriorityFeePerGas tx.maxFeePerGas tx.gasLimit.toNat (address tx.to_)
    tx.value tx.data.bytes

def createFields (tx : Eip1559Create) : Fields :=
  fieldsOf tx.chainId.toNat tx.nonce.toNat tx.maxPriorityFeePerGas tx.maxFeePerGas tx.gasLimit.toNat (uint 0)
    tx.value tx.initCode.bytes

def yParityFromV (v : Byte) : Byte := (v - 27) &&& 1

def sigFields (sig : Vector Byte 65) : Except EvmTxErr (List Enc) :=
  let v := sig.toList.getD 64 0
  if v ≠ 27 ∧ v ≠ 28 then .error .badSignature
  else
    let rs := sig.toList.take 64
    .ok [uint (yParityFromV v).toNat, word (rs.take 32), word (rs.drop 32)]

structure PreparedTx where
  f : Fields
  data : List Byte
  deriving DecidableEq

namespace PreparedTx

def call (tx : Eip1559Tx) : PreparedTx := ⟨fields tx, tx.data.bytes⟩

def create (tx : Eip1559Create) : PreparedTx := ⟨createFields tx, tx.initCode.bytes⟩

/-- The bytes that `digest` hashes, part by part. -/
def digestInput (p : PreparedTx) : List Byte :=
  [[txType], listHeader p.f.unsignedPayload, p.f.head.getD 0 [], p.f.head.getD 1 [], p.f.head.getD 2 [],
    p.f.head.getD 3 [], p.f.head.getD 4 [], p.f.head.getD 5 [], p.f.value, p.f.dataHdr, p.data, emptyList].flatten

end PreparedTx

structure SignedTx where
  p : PreparedTx
  s : List Enc
  lh : Enc
  payload : Nat
  deriving DecidableEq

def PreparedTx.signed (p : PreparedTx) (sig : Vector Byte 65) : Except EvmTxErr SignedTx :=
  (sigFields sig).map fun s =>
    let payload := p.f.unsignedPayload + (s.getD 0 []).length + (s.getD 1 []).length + (s.getD 2 []).length
    ⟨p, s, listHeader payload, payload⟩

def hex : List Byte := [48, 49, 50, 51, 52, 53, 54, 55, 56, 57, 97, 98, 99, 100, 101, 102]

structure HexOut where
  dst : List Byte
  n : Nat
  deriving DecidableEq

def HexOut.putByte (w : HexOut) (b : Byte) : HexOut :=
  { dst := (w.dst.set w.n (hex.getD (b >>> 4).toNat 0)).set (w.n + 1) (hex.getD (b &&& 0x0f).toNat 0), n := w.n + 2 }

def HexOut.put (w : HexOut) (bytes : List Byte) : HexOut := bytes.foldl HexOut.putByte w

namespace SignedTx

/-- The bytes that `hash` hashes, part by part. -/
def hashInput (t : SignedTx) : List Byte :=
  [[txType], t.lh, t.p.f.head.getD 0 [], t.p.f.head.getD 1 [], t.p.f.head.getD 2 [], t.p.f.head.getD 3 [],
    t.p.f.head.getD 4 [], t.p.f.head.getD 5 [], t.p.f.value, t.p.f.dataHdr, t.p.data, emptyList,
    t.s.getD 0 [], t.s.getD 1 [], t.s.getD 2 []].flatten

def hexLen (t : SignedTx) : Nat := 2 + 2 * (1 + t.lh.length + t.payload)

def renderHex (t : SignedTx) (dst : List Byte) : Except EvmTxErr Nat × List Byte :=
  if dst.length < t.hexLen then (.error .bufferTooSmall, dst)
  else
    let w : HexOut := ⟨(dst.set 0 48).set 1 120, 2⟩
    let w := (w.put [txType]).put t.lh
    let w := t.p.f.head.foldl HexOut.put w
    let w := (((w.put t.p.f.value).put t.p.f.dataHdr).put t.p.data).put emptyList
    let w := ((w.put (t.s.getD 0 [])).put (t.s.getD 1 [])).put (t.s.getD 2 [])
    (.ok t.hexLen, w.dst)

end SignedTx

end TradingEngine.Evm
