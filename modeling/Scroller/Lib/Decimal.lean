import Mathlib.Data.Nat.Digits.Defs

/-!
# Decimal notation

The canonical decimal notation of an integer, as bytes: its digits without a leading zero, behind a minus sign
if it is negative. Reading it gives the integer back.
-/

namespace Decimal

def digit (d : Nat) : UInt8 := .ofNat (48 + d)

def ofNat (n : Nat) : List UInt8 :=
  if n = 0 then [digit 0] else ((Nat.digits 10 n).map digit).reverse

def ofInt (n : Int) : List UInt8 := if n < 0 then 45 :: ofNat n.natAbs else ofNat n.natAbs

/-- One more digit of a number. -/
def readDigit (n : Nat) (c : UInt8) : Option Nat :=
  if 48 ≤ c.toNat ∧ c.toNat ≤ 57 then some (10 * n + (c.toNat - 48)) else none

def readNat (s : List UInt8) : Option Nat := if s = [] then none else s.foldlM readDigit 0

/-- The integer that a string denotes: digits, behind a minus sign or not. -/
def read : List UInt8 → Option Int
  | 45 :: s => (readNat s).map fun n : Nat => -(n : Int)
  | s => (readNat s).map fun n : Nat => (n : Int)

theorem toNat_digit {d : Nat} (h : d < 10) : (digit d).toNat = 48 + d := by
  rw [digit, UInt8.toNat_ofNat']
  omega

theorem ofNat_of_lt {n : Nat} (h : n < 10) : ofNat n = [digit n] := by
  rcases Nat.eq_zero_or_pos n with rfl | hpos
  · rfl
  · rw [ofNat, if_neg (by omega), Nat.digits_of_lt 10 n (by omega) h]
    rfl

theorem ofNat_of_le {n : Nat} (h : 10 ≤ n) : ofNat n = ofNat (n / 10) ++ [digit (n % 10)] := by
  have hquot : n / 10 ≠ 0 := by omega
  rw [ofNat, if_neg (by omega), Nat.digits_def' (by decide) (by omega), ofNat, if_neg hquot,
    List.map_cons, List.reverse_cons]

/-- A number has one digit, or those of its tenth and one more. -/
theorem induction_ofNat {P : Nat → Prop} (hlt : ∀ n < 10, P n) (hle : ∀ n, 10 ≤ n → P (n / 10) → P n)
    (n : Nat) : P n := by
  induction n using Nat.strong_induction_on with
  | _ n ih =>
      by_cases hn : n < 10
      · exact hlt n hn
      · exact hle n (by omega) (ih (n / 10) (by omega))

theorem digit_of_mem {n : Nat} {c : UInt8} (h : c ∈ ofNat n) : 48 ≤ c.toNat ∧ c.toNat ≤ 57 := by
  induction n using induction_ofNat with
  | hlt n hn =>
      rw [ofNat_of_lt hn, List.mem_singleton] at h
      rw [h, toNat_digit hn]
      omega
  | hle n hn ih =>
      rw [ofNat_of_le hn, List.mem_append, List.mem_singleton] at h
      rcases h with hmem | rfl
      · exact ih hmem
      · rw [toNat_digit (Nat.mod_lt n (by decide))]
        omega

theorem ofNat_ne_nil (n : Nat) : ofNat n ≠ [] := by
  by_cases hn : n < 10
  · rw [ofNat_of_lt hn]
    exact List.cons_ne_nil _ _
  · rw [ofNat_of_le (by omega)]
    exact List.append_ne_nil_of_right_ne_nil _ (List.cons_ne_nil _ _)

theorem readDigit_digit {n d : Nat} (h : d < 10) : readDigit n (digit d) = some (10 * n + d) := by
  rw [readDigit, toNat_digit h, if_pos (by omega), Nat.add_sub_cancel_left]

theorem foldlM_ofNat (n : Nat) : (ofNat n).foldlM readDigit 0 = some n := by
  induction n using induction_ofNat with
  | hlt n hn =>
      rw [ofNat_of_lt hn, List.foldlM_cons, readDigit_digit hn, Nat.mul_zero, Nat.zero_add]
      rfl
  | hle n hn ih =>
      rw [ofNat_of_le hn, List.foldlM_append, ih]
      change (List.foldlM readDigit (n / 10) [digit (n % 10)]) = some n
      rw [List.foldlM_cons, readDigit_digit (Nat.mod_lt n (by decide)), Nat.div_add_mod]
      rfl

theorem readNat_ofNat (n : Nat) : readNat (ofNat n) = some n := by
  rw [readNat, if_neg (ofNat_ne_nil n), foldlM_ofNat]

theorem read_ofNat (n : Nat) : read (ofNat n) = some (n : Int) := by
  have hread : read (ofNat n) = (readNat (ofNat n)).map fun n : Nat => (n : Int) := by
    unfold read
    split
    · rename_i s hs
      have hminus : (45 : UInt8) ∈ ofNat n := hs ▸ List.mem_cons_self
      have hdigit := (digit_of_mem hminus).1
      exact absurd hdigit (by decide)
    · rfl
  rw [hread, readNat_ofNat]
  rfl

/-- **Decimal notation can be read back.** -/
theorem read_ofInt (n : Int) : read (ofInt n) = some n := by
  unfold ofInt
  split
  · change (readNat (ofNat n.natAbs)).map (fun n : Nat => -(n : Int)) = some n
    rw [readNat_ofNat, Option.map_some]
    congr 1
    omega
  · rw [read_ofNat]
    congr 1
    omega

end Decimal
