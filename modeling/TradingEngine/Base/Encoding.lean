import TradingEngine.Base.Bytes

/-!
# Encodings that delimit themselves

Two encoded values followed by anything are equal only when the values are, and then so is what follows.
-/

namespace TradingEngine.Base

def littleEndian (k n : Nat) : List UInt8 := (bigEndianBytes k n).reverse

theorem littleEndian_append {k n m : Nat} (small : n < 256 ^ k) (small' : m < 256 ^ k) {r s : List UInt8} :
    littleEndian k n ++ r = littleEndian k m ++ s ↔ n = m ∧ r = s := by
  constructor
  · intro same
    obtain ⟨first, rest⟩ := List.append_inj same (by simp [littleEndian])
    have words := congrArg bigEndian (List.reverse_injective first)
    rw [bigEndian_bytes, bigEndian_bytes, Nat.mod_eq_of_lt small, Nat.mod_eq_of_lt small'] at words
    exact ⟨words, rest⟩
  · rintro ⟨rfl, rfl⟩
    rfl

/-- A written value says where it ends. -/
abbrev Delimits {α : Type} (write : α → List UInt8) : Prop := ∀ x y r s, write x ++ r = write y ++ s ↔ x = y ∧ r = s

def writeU8 (x : UInt8) : List UInt8 := [x]

def writeU16 (x : UInt16) : List UInt8 := littleEndian 2 x.toNat

def writeU32 (x : UInt32) : List UInt8 := littleEndian 4 x.toNat

def writeU64 (x : UInt64) : List UInt8 := littleEndian 8 x.toNat

def writeI64 (x : Int64) : List UInt8 := writeU64 x.toUInt64

def writeBool (x : Bool) : List UInt8 := writeU8 (if x then 1 else 0)

/-- A length keeps its low 32 bits. -/
def writeLen (n : Nat) : List UInt8 := writeU32 (UInt32.ofNat n)

def writeBytes (bytes : List UInt8) : List UInt8 := writeLen bytes.length ++ bytes

section Scalars

variable {r s : List UInt8}

@[simp] theorem writeU8_append : Delimits writeU8 := fun _ _ _ _ => List.cons.injEq .. ▸ Iff.rfl

@[simp] theorem writeU16_append : Delimits writeU16 := by
  intro x y r s
  rw [writeU16, writeU16, littleEndian_append x.toNat_lt y.toNat_lt, UInt16.toNat_inj]

@[simp] theorem writeU32_append : Delimits writeU32 := by
  intro x y r s
  rw [writeU32, writeU32, littleEndian_append x.toNat_lt y.toNat_lt, UInt32.toNat_inj]

@[simp] theorem writeU64_append : Delimits writeU64 := by
  intro x y r s
  rw [writeU64, writeU64, littleEndian_append x.toNat_lt y.toNat_lt, UInt64.toNat_inj]

@[simp] theorem writeI64_append : Delimits writeI64 := by
  intro x y r s
  rw [writeI64, writeI64, writeU64_append]
  refine and_congr_left fun _ => ⟨fun same => ?_, fun same => same ▸ rfl⟩
  simpa using congrArg UInt64.toInt64 same

@[simp] theorem writeBool_append : Delimits writeBool := by
  intro x y r s
  rw [writeBool, writeBool, writeU8_append]
  cases x <;> cases y <;> simp

@[simp] theorem array_append {n : Nat} {x y : Vector UInt8 n} : x.toList ++ r = y.toList ++ s ↔ x = y ∧ r = s := by
  constructor
  · intro same
    obtain ⟨first, rest⟩ := List.append_inj same (by simp)
    exact ⟨Vector.toList_inj.mp first, rest⟩
  · rintro ⟨rfl, rfl⟩
    rfl

theorem writeLen_append {m n : Nat} (small : m < 2 ^ 32) (small' : n < 2 ^ 32) :
    writeLen m ++ r = writeLen n ++ s ↔ m = n ∧ r = s := by
  rw [writeLen, writeLen, writeU32_append, ← UInt32.toNat_inj, UInt32.toNat_ofNat', UInt32.toNat_ofNat',
    Nat.mod_eq_of_lt small, Nat.mod_eq_of_lt small']

theorem writeBytes_append {x y : List UInt8} (small : x.length < 2 ^ 32) (small' : y.length < 2 ^ 32) :
    writeBytes x ++ r = writeBytes y ++ s ↔ x = y ∧ r = s := by
  rw [writeBytes, writeBytes, List.append_assoc, List.append_assoc, writeLen_append small small']
  constructor
  · rintro ⟨length, same⟩
    exact List.append_inj same length
  · rintro ⟨rfl, rfl⟩
    exact ⟨rfl, rfl⟩

end Scalars

section Lists

variable {α : Type} {write : α → List UInt8} {xs ys : List α} {r s : List UInt8}

theorem flatMap_append (law : ∀ x ∈ xs, ∀ y ∈ ys, ∀ r s, write x ++ r = write y ++ s → x = y ∧ r = s)
    (length : xs.length = ys.length) (same : xs.flatMap write ++ r = ys.flatMap write ++ s) : xs = ys ∧ r = s := by
  induction xs generalizing ys with
  | nil =>
    obtain rfl := List.length_eq_zero_iff.mp length.symm
    exact ⟨rfl, same⟩
  | cons x xs ih =>
    cases ys with
    | nil => cases length
    | cons y ys =>
      rw [List.flatMap_cons, List.flatMap_cons, List.append_assoc, List.append_assoc] at same
      obtain ⟨rfl, others⟩ := law x List.mem_cons_self y List.mem_cons_self _ _ same
      obtain ⟨rfl, rest⟩ := ih (fun x member y member' => law x (List.mem_cons_of_mem _ member) y
        (List.mem_cons_of_mem _ member')) (Nat.succ.inj length) others
      exact ⟨rfl, rest⟩

def writeList (write : α → List UInt8) (xs : List α) : List UInt8 := writeLen xs.length ++ xs.flatMap write

theorem writeList_append (law : Delimits write) (small : xs.length < 2 ^ 32)
    (small' : ys.length < 2 ^ 32) : writeList write xs ++ r = writeList write ys ++ s ↔ xs = ys ∧ r = s := by
  rw [writeList, writeList, List.append_assoc, List.append_assoc, writeLen_append small small']
  constructor
  · rintro ⟨length, same⟩
    exact flatMap_append (fun x _ y _ r s => (law x y r s).mp) length same
  · rintro ⟨rfl, rfl⟩
    exact ⟨rfl, rfl⟩

end Lists

end TradingEngine.Base
