import Mathlib.Data.UInt
import Scroller.Lib.ByteMemory

/-!
# Little-endian integers

An integer in memory is its bytes, the lowest one first. A field of a record is loaded from and stored to
its place; fields that do not overlap do not disturb each other.
-/

namespace LittleEndian

/-- The lowest `k` bytes of a number. -/
def toBytes : Nat → Nat → List UInt8
  | 0, _ => []
  | k + 1, n => n.toUInt8 :: toBytes k (n / 256)

def ofBytes : List UInt8 → Nat
  | [] => 0
  | b :: bytes => b.toNat + 256 * ofBytes bytes

@[simp]
theorem length_toBytes (k n : Nat) : (toBytes k n).length = k := by
  induction k generalizing n with
  | zero => rfl
  | succ k ih => rw [toBytes, List.length_cons, ih]

/-- Decoding gives the number back, up to the bytes that were kept. -/
theorem ofBytes_toBytes (k n : Nat) : ofBytes (toBytes k n) = n % 256 ^ k := by
  induction k generalizing n with
  | zero => rw [toBytes, ofBytes, Nat.pow_zero, Nat.mod_one]
  | succ k ih =>
      have hbyte : n.toUInt8.toNat = n % 256 := UInt8.toNat_ofNat'
      rw [toBytes, ofBytes, ih, hbyte, Nat.pow_succ, Nat.mul_comm (256 ^ k) 256, Nat.mod_mul]

theorem ofBytes_toBytes_of_lt {k n : Nat} (h : n < 256 ^ k) : ofBytes (toBytes k n) = n := by
  rw [ofBytes_toBytes, Nat.mod_eq_of_lt h]

theorem ofBytes_lt (bytes : List UInt8) : ofBytes bytes < 256 ^ bytes.length := by
  induction bytes with
  | nil => exact Nat.one_pos
  | cons b bytes ih =>
      have hb := b.toNat_lt
      rw [ofBytes, List.length_cons, Nat.pow_succ]
      omega

theorem ofBytes_replicate_zero (k : Nat) : ofBytes (List.replicate k 0) = 0 := by
  induction k with
  | zero => rfl
  | succ k ih => simp [List.replicate_succ, ofBytes, ih]

/-! ### Integers in memory -/

/-- The integer in the `k` bytes at `p`. -/
def load (mem : Nat → UInt8) (p k : Nat) : Nat := ofBytes (ByteMemory.slice mem p k)

/-- Puts the lowest `k` bytes of a number to `p`. -/
def store (mem : Nat → UInt8) (p k n : Nat) : Nat → UInt8 := ByteMemory.write mem p (toBytes k n)

variable {mem mem' : Nat → UInt8} {p q k j n : Nat}

theorem load_lt (mem : Nat → UInt8) (p k : Nat) : load mem p k < 256 ^ k := by
  have h := ofBytes_lt (ByteMemory.slice mem p k)
  rwa [ByteMemory.length_slice] at h

@[simp]
theorem load_store_self (mem : Nat → UInt8) (p k n : Nat) :
    load (store mem p k n) p k = n % 256 ^ k := by
  have h := ByteMemory.slice_write_self mem p (toBytes k n)
  rw [length_toBytes] at h
  rw [load, store, h, ofBytes_toBytes]

theorem slice_store_of_disjoint (h : p + n ≤ q ∨ q + j ≤ p) (v : Nat) :
    ByteMemory.slice (store mem q j v) p n = ByteMemory.slice mem p n := by
  apply ByteMemory.slice_write_of_disjoint
  rwa [length_toBytes]

theorem load_store_of_disjoint (h : p + k ≤ q ∨ q + j ≤ p) (v : Nat) :
    load (store mem q j v) p k = load mem p k :=
  congrArg ofBytes (slice_store_of_disjoint h v)

end LittleEndian
