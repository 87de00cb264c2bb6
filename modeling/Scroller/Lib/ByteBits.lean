import Mathlib.Data.UInt

/-!
# Single bits of bytes

Reading a bit with a shift and a mask, and setting or clearing one with a mask, in terms of the bits of
the byte.
-/

namespace ByteBits

/-- Bit `k` of a byte, as a shift and a mask read it. -/
def test (byte k : UInt8) : Bool := (byte >>> k) &&& 1 = 1

def set (byte k : UInt8) : UInt8 := byte ||| (1 <<< k)

def clear (byte k : UInt8) : UInt8 := byte &&& ~~~(1 <<< k)

variable {byte j k : UInt8}

theorem test_eq (hk : k.toNat < 8) : test byte k = byte.toBitVec.getLsbD k.toNat := by
  have hmod : k.toNat % 8 = k.toNat := Nat.mod_eq_of_lt hk
  rw [test, ← Bool.coe_iff_coe, decide_eq_true_iff, ← UInt8.toBitVec_inj, UInt8.toBitVec_and,
    UInt8.toBitVec_shiftRight]
  constructor
  · intro h
    have hbit := congrArg (fun v => v.getLsbD 0) h
    simpa [hmod] using hbit
  · intro h
    refine BitVec.eq_of_getLsbD_eq fun i hi => ?_
    cases i with
    | zero => simpa [hmod] using h
    | succ i => simp

theorem getLsbD_one_shiftLeft (hj : j.toNat < 8) (hk : k.toNat < 8) :
    ((1 : UInt8) <<< k).toBitVec.getLsbD j.toNat = decide (j = k) := by
  have hmod : k.toNat % 8 = k.toNat := Nat.mod_eq_of_lt hk
  rw [← Bool.coe_iff_coe, decide_eq_true_iff, ← UInt8.toNat_inj]
  simp [UInt8.toBitVec_shiftLeft, BitVec.getLsbD_shiftLeft, hmod]
  omega

theorem test_set (hj : j.toNat < 8) (hk : k.toNat < 8) :
    test (set byte k) j = (test byte j || decide (j = k)) := by
  rw [test_eq hj, test_eq hj, set, UInt8.toBitVec_or, BitVec.getLsbD_or, getLsbD_one_shiftLeft hj hk]

theorem test_clear (hj : j.toNat < 8) (hk : k.toNat < 8) :
    test (clear byte k) j = (test byte j && !decide (j = k)) := by
  rw [test_eq hj, test_eq hj, clear, UInt8.toBitVec_and, BitVec.getLsbD_and, UInt8.toBitVec_not,
    BitVec.getLsbD_not, getLsbD_one_shiftLeft hj hk]
  simp [hj]

end ByteBits
