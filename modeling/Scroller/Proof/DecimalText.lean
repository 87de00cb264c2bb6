import Scroller.DatumText
import Scroller.Lib.Decimal
import Scroller.Proof.Calculation

/-!
# Integers as text

The first loop of `datum_sdup` counts the digits of an integer and the second one puts them into the buffer.
The digits of a negative integer come out below zero, and no loop puts a minus sign.
-/

namespace Scroller

variable {v : Int64}

/-! ### Division by ten -/

theorem natAbs_div_ten (v : Int64) : (v / 10).toInt.natAbs = v.toInt.natAbs / 10 := by
  rw [Int64.toInt_div_of_ne_right v 10 (by decide), Int.natAbs_tdiv]
  rfl

theorem div_ten_eq_zero : v / 10 = 0 ↔ v.toInt.natAbs < 10 := by
  have hzero : (0 : Int64).toInt = 0 := rfl
  rw [← Int64.toInt_inj, hzero, ← Int.natAbs_eq_zero, natAbs_div_ten]
  omega

theorem div_ten_neg (h : 10 ≤ v.toInt.natAbs) : (v / 10).toInt < 0 ↔ v.toInt < 0 := by
  have hten : (10 : Int64).toInt = 10 := rfl
  rw [Int64.toInt_div_of_ne_right v 10 (by decide), hten]
  rcases Int.natAbs_eq v.toInt with hpos | hneg
  · rw [hpos, Int.tdiv_eq_ediv_of_nonneg (Int.natCast_nonneg _)]
    omega
  · rw [hneg, Int.neg_tdiv, Int.tdiv_eq_ediv_of_nonneg (Int.natCast_nonneg _)]
    omega

theorem tmod_ten (n : Int) :
    n.tmod 10 = if n < 0 then -((n.natAbs % 10 : Nat) : Int) else ((n.natAbs % 10 : Nat) : Int) := by
  rcases Int.natAbs_eq n with hpos | hneg
  · rw [if_neg (by omega), Int.tmod_eq_emod_of_nonneg (by omega)]
    omega
  · rw [hneg, Int.neg_tmod, Int.tmod_eq_emod_of_nonneg (Int.natCast_nonneg _), Int.natAbs_neg,
      Int.natAbs_natCast]
    split
    · rfl
    · omega

/-! ### The number of digits -/

theorem countDigits_eq {fuel : Nat} (cnt : Nat) (h : v.toInt.natAbs < 10 ^ fuel) (hpos : 0 < fuel) :
    countDigits fuel v (cnt + 1) = .ok (cnt + (Decimal.ofNat v.toInt.natAbs).length) := by
  induction fuel generalizing v cnt with
  | zero => exact absurd hpos (Nat.lt_irrefl 0)
  | succ fuel ih =>
      rw [countDigits]
      by_cases hlt : v.toInt.natAbs < 10
      · rw [if_pos (div_ten_eq_zero.mpr hlt), Decimal.ofNat_of_lt hlt]
        rfl
      · have hquot : (v / 10).toInt.natAbs < 10 ^ fuel := by
          rw [natAbs_div_ten, Nat.div_lt_iff_lt_mul (by decide), ← Nat.pow_succ]
          exact h
        have hfuel : 0 < fuel := by
          rcases Nat.eq_zero_or_pos fuel with rfl | hpos
          · exact absurd h hlt
          · exact hpos
        rw [if_neg (fun hzero => hlt (div_ten_eq_zero.mp hzero)), ih (cnt + 1) hquot hfuel,
          natAbs_div_ten, Decimal.ofNat_of_le (Nat.not_lt.mp hlt), List.length_append,
          List.length_singleton]
        congr 1
        omega

theorem natAbs_lt_maxDigits (v : Int64) : v.toInt.natAbs < 10 ^ maxDigits := by
  have hlow := v.le_toInt
  have hhigh := v.toInt_lt
  rw [maxDigits]
  omega

/-! ### The digits -/

/-- What the second loop makes of a digit: `'0'` with the digit added or, below zero, subtracted. -/
def signedDigit (v : Int64) (c : UInt8) : UInt8 := if v.toInt < 0 then 96 - c else c

def signedDigits (v : Int64) : List UInt8 := (Decimal.ofNat v.toInt.natAbs).map (signedDigit v)

theorem byte_of_remainder :
    ∀ d : Nat, d < 10 → (48 + Int64.ofInt d).toUInt64.toUInt8 = Decimal.digit d
      ∧ (48 + Int64.ofInt (-d)).toUInt64.toUInt8 = 96 - Decimal.digit d := by decide

theorem lastDigit_eq (v : Int64) :
    (48 + v % 10).toUInt64.toUInt8 = signedDigit v (Decimal.digit (v.toInt.natAbs % 10)) := by
  have hten : (10 : Int64).toInt = 10 := rfl
  obtain ⟨hpos, hneg⟩ := byte_of_remainder (v.toInt.natAbs % 10) (Nat.mod_lt _ (by decide))
  rw [mod_eq_ofInt, hten, tmod_ten, signedDigit]
  split
  · exact hneg
  · exact hpos

theorem signedDigits_of_lt (h : v.toInt.natAbs < 10) :
    signedDigits v = [(48 + v % 10).toUInt64.toUInt8] := by
  rw [signedDigits, Decimal.ofNat_of_lt h, lastDigit_eq, Nat.mod_eq_of_lt h]
  rfl

theorem signedDigits_of_le (h : 10 ≤ v.toInt.natAbs) :
    signedDigits v = signedDigits (v / 10) ++ [(48 + v % 10).toUInt64.toUInt8] := by
  have hsign : signedDigit (v / 10) = signedDigit v := by
    funext c
    simp only [signedDigit, div_ten_neg h]
  rw [signedDigits, Decimal.ofNat_of_le h, lastDigit_eq, List.map_append, signedDigits, natAbs_div_ten,
    hsign]
  rfl

theorem length_signedDigits (v : Int64) :
    (signedDigits v).length = (Decimal.ofNat v.toInt.natAbs).length := List.length_map _

theorem drop_set_self (l : List UInt8) {i : Nat} (h : i < l.length) (a : UInt8) :
    (l.set i a).drop i = a :: l.drop (i + 1) := by
  have hlength : i < (l.set i a).length := by rwa [List.length_set]
  rw [List.drop_eq_getElem_cons hlength, List.getElem_set_self, List.drop_set_of_lt (Nat.lt_succ_self i)]

/-- The second loop fills the front of the buffer with the digits and leaves the rest. -/
theorem putDigits_eq {cnt : Nat} {ret : List UInt8} (hcnt : (signedDigits v).length = cnt)
    (hret : cnt ≤ ret.length) : putDigits cnt v ret = signedDigits v ++ ret.drop cnt := by
  induction cnt generalizing v ret with
  | zero =>
      rw [List.length_eq_zero_iff.mp hcnt]
      rfl
  | succ cnt ih =>
      have hset := drop_set_self ret hret (48 + v % 10).toUInt64.toUInt8
      rw [putDigits]
      by_cases hlt : v.toInt.natAbs < 10
      · rw [signedDigits_of_lt hlt] at hcnt ⊢
        cases Nat.succ.inj hcnt
        exact hset
      · rw [signedDigits_of_le (Nat.not_lt.mp hlt)] at hcnt ⊢
        rw [List.length_append] at hcnt
        rw [ih (Nat.succ.inj hcnt) (by rw [List.length_set]; omega), hset, List.append_assoc]
        rfl

theorem signedDigits_ne_zero {c : UInt8} (h : c ∈ signedDigits v) : c ≠ 0 := by
  obtain ⟨d, hd, rfl⟩ := List.mem_map.mp h
  obtain ⟨hlow, hhigh⟩ := Decimal.digit_of_mem hd
  rw [signedDigit, ne_eq, ← UInt8.toNat_inj]
  change ¬ _ = 0
  split
  · have hle : d ≤ 96 := UInt8.le_iff_toNat_le.mpr (Nat.le_trans hhigh (by decide))
    have hninetysix : (96 : UInt8).toNat = 96 := rfl
    rw [UInt8.toNat_sub_of_le _ _ hle, hninetysix]
    omega
  · omega

/-- What `datum_sdup` makes of an integer. -/
theorem datumSdup_integer {d : Datum} (h : d.type.group = .integer) :
    datumSdup d = .ok (signedDigits d.integer) := by
  have hcount : countDigits maxDigits d.integer 1 = .ok (signedDigits d.integer).length := by
    rw [length_signedDigits]
    exact (countDigits_eq 0 (natAbs_lt_maxDigits d.integer) (by decide)).trans
      (congrArg Except.ok (Nat.zero_add _))
  have hstring : ∀ ret : List UInt8, ret.length = (signedDigits d.integer).length + 1 →
      bufferString (putDigits (signedDigits d.integer).length d.integer
        (ret.set (signedDigits d.integer).length 0)) = signedDigits d.integer := by
    intro ret hret
    rw [putDigits_eq rfl (by rw [List.length_set]; omega), drop_set_self ret (by omega),
      List.drop_eq_nil_of_le (by omega), bufferString, List.takeWhile_append_of_pos]
    · exact List.append_nil _
    · intro c hc
      exact decide_eq_true (signedDigits_ne_zero hc)
  have hbuffer := hstring (List.replicate ((signedDigits d.integer).length + 1) 0) List.length_replicate
  unfold datumSdup
  cases htype : d.type with
  | unknown | name | char | varchar =>
      rw [htype] at h
      cases h
  | smallint | integer | bigint =>
      dsimp only
      rw [toBaseType_integer, hcount]
      exact congrArg Except.ok hbuffer

/-- The text of an integer is its decimal notation, which denotes the integer. -/
def RendersDecimal (d : Datum) : Prop :=
  ∃ s, datumSdup d = .ok s ∧ s = Decimal.ofInt d.integer.toInt ∧ Decimal.read s = some d.integer.toInt

/-- **The text of an integer is its decimal notation** exactly where it is not negative. -/
theorem rendersDecimal_iff {d : Datum} (h : d.type.group = .integer) :
    RendersDecimal d ↔ 0 ≤ d.integer.toInt := by
  unfold RendersDecimal
  rw [datumSdup_integer h]
  constructor
  · rintro ⟨s, hs, hdecimal, -⟩
    cases hs
    by_contra hneg
    have hlength := congrArg List.length hdecimal
    rw [length_signedDigits, Decimal.ofInt, if_pos (Int.not_le.mp hneg), List.length_cons] at hlength
    omega
  · intro hpos
    have hid : signedDigit d.integer = id := by
      funext c
      exact if_neg (Int.not_lt.mpr hpos)
    have hdigits : signedDigits d.integer = Decimal.ofInt d.integer.toInt := by
      rw [signedDigits, hid, List.map_id, Decimal.ofInt, if_neg (Int.not_lt.mpr hpos)]
    refine ⟨_, rfl, hdigits, ?_⟩
    rw [hdigits, Decimal.read_ofInt]

theorem rendersDecimal_iff_max : RendersDecimal ⟨.bigint, 9223372036854775807, []⟩ :=
  (rendersDecimal_iff rfl).mpr (by decide)

/-- `-12` becomes `/.`. -/
theorem negative_not_rendered : ¬ RendersDecimal ⟨.integer, -12, []⟩ := by
  have htext : datumSdup ⟨.integer, -12, []⟩ = .ok (ascii "/.") := by decide
  rintro ⟨s, hs, hdecimal, -⟩
  rw [htext] at hs
  cases hs
  have hlength := congrArg List.length hdecimal
  rw [Decimal.ofInt, if_pos (by decide), List.length_cons] at hlength
  change 2 = (Decimal.ofNat 12).length + 1 at hlength
  rw [Decimal.ofNat_of_le (by decide), List.length_append] at hlength
  have hpos := List.length_pos_of_ne_nil (Decimal.ofNat_ne_nil (12 / 10))
  rw [List.length_singleton] at hlength
  omega

end Scroller
