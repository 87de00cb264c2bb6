import Scroller.Proof.Like
import Scroller.Reference

/-!
# Operators and their meaning

Every operator on data computes the meaning of the expression, where its arithmetic stays in range. The
comparison of integers subtracts them, so that it needs their difference in range too.
-/

namespace Scroller

/-- A number that fits a `BIGINT`. -/
def InRange (n : Int) : Prop := -2 ^ 63 ≤ n ∧ n < 2 ^ 63

instance (n : Int) : Decidable (InRange n) := inferInstanceAs (Decidable (_ ∧ _))

/-! ### Integers -/

section Integers

variable {a b x : Int64} {n : Int}

theorem toInt_eq_iff (h : x = .ofInt n) : x.toInt = n ↔ InRange n := by
  constructor
  · intro hn
    rw [← hn]
    exact ⟨x.le_toInt, x.toInt_lt⟩
  · rintro ⟨hlow, hhigh⟩
    rw [h, Int64.toInt_ofInt_of_le hlow hhigh]

theorem add_eq_ofInt : a + b = .ofInt (a.toInt + b.toInt) := by
  rw [Int64.ofInt_add, Int64.ofInt_toInt, Int64.ofInt_toInt]

theorem sub_eq_ofInt : a - b = .ofInt (a.toInt - b.toInt) := by
  rw [Int64.ofInt_sub, Int64.ofInt_toInt, Int64.ofInt_toInt]

theorem mul_eq_ofInt : a * b = .ofInt (a.toInt * b.toInt) := by
  rw [Int64.ofInt_mul, Int64.ofInt_toInt, Int64.ofInt_toInt]

theorem div_eq_ofInt : a / b = .ofInt (a.toInt.tdiv b.toInt) := by
  rw [Int64.ofInt_tdiv a.minValue_le_toInt a.toInt_le b.minValue_le_toInt b.toInt_le,
    Int64.ofInt_toInt, Int64.ofInt_toInt]

theorem mod_eq_ofInt : a % b = .ofInt (a.toInt.tmod b.toInt) := by
  rw [Int64.ofInt_tmod a.minValue_le_toInt a.toInt_le b.minValue_le_toInt b.toInt_le,
    Int64.ofInt_toInt, Int64.ofInt_toInt]

theorem addInt64_of_inRange (h : InRange (a.toInt + b.toInt)) :
    addInt64 a b = .ok (.ofInt (a.toInt + b.toInt)) := by
  rw [addInt64, if_pos ((toInt_eq_iff add_eq_ofInt).mpr h), add_eq_ofInt]

theorem subInt64_of_inRange (h : InRange (a.toInt - b.toInt)) :
    subInt64 a b = .ok (.ofInt (a.toInt - b.toInt)) := by
  rw [subInt64, if_pos ((toInt_eq_iff sub_eq_ofInt).mpr h), sub_eq_ofInt]

theorem subInt64_of_not_inRange (h : ¬ InRange (a.toInt - b.toInt)) :
    subInt64 a b = .error .signedOverflow := by
  rw [subInt64, if_neg (fun heq => h ((toInt_eq_iff sub_eq_ofInt).mp heq))]

theorem mulInt64_of_inRange (h : InRange (a.toInt * b.toInt)) :
    mulInt64 a b = .ok (.ofInt (a.toInt * b.toInt)) := by
  rw [mulInt64, if_pos ((toInt_eq_iff mul_eq_ofInt).mpr h), mul_eq_ofInt]

theorem ne_zero_of_toInt (hb : b.toInt ≠ 0) : b ≠ 0 := by
  rintro rfl
  exact hb rfl

theorem divInt64_of_inRange (hb : b.toInt ≠ 0) (h : InRange (a.toInt.tdiv b.toInt)) :
    divInt64 a b = .ok (.ofInt (a.toInt.tdiv b.toInt)) := by
  rw [divInt64, if_neg (ne_zero_of_toInt hb), if_pos ((toInt_eq_iff div_eq_ofInt).mpr h),
    div_eq_ofInt]

theorem modInt64_of_inRange (hb : b.toInt ≠ 0) (h : InRange (a.toInt.tdiv b.toInt)) :
    modInt64 a b = .ok (.ofInt (a.toInt.tmod b.toInt)) := by
  rw [modInt64, if_neg (ne_zero_of_toInt hb), if_pos ((toInt_eq_iff div_eq_ofInt).mpr h),
    mod_eq_ofInt]

theorem modInt64_of_not_inRange (hb : b.toInt ≠ 0) (h : ¬ InRange (a.toInt.tdiv b.toInt)) :
    modInt64 a b = .error .signedOverflow := by
  rw [modInt64, if_neg (ne_zero_of_toInt hb),
    if_neg (fun heq => h ((toInt_eq_iff div_eq_ofInt).mp heq))]

end Integers

/-! ### Characters -/

theorem toBaseType_character (d : Datum) : (toBaseType d).character = d.text := by
  unfold toBaseType Datum.text
  cases d.type <;> rfl

theorem toBaseType_integer (d : Datum) : (toBaseType d).integer = d.integer := by
  unfold toBaseType
  cases d.type <;> rfl

/-- `memcmp` and the lengths behind it. -/
def cmpText (s1 s2 : List UInt8) : Int :=
  if memcmp s1 s2 = 0 then
    if s1.length < s2.length then -1 else if s1.length > s2.length then 1 else 0
  else memcmp s1 s2

theorem cmpCharacter_eq (d1 d2 : Datum) : d1.cmpCharacter d2 = cmpText d1.text d2.text := by
  unfold Datum.cmpCharacter cmpText
  rw [toBaseType_character, toBaseType_character]

theorem cmpText_cons_self (a : UInt8) (s1 s2 : List UInt8) :
    cmpText (a :: s1) (a :: s2) = cmpText s1 s2 := by
  unfold cmpText
  simp only [memcmp, if_true, List.length_cons, Nat.add_lt_add_iff_right, gt_iff_lt]

theorem cmpText_cons_ne {a b : UInt8} (h : a ≠ b) (s1 s2 : List UInt8) :
    cmpText (a :: s1) (b :: s2) = if a < b then -1 else 1 := by
  unfold cmpText
  simp only [memcmp, if_neg h]
  split <;> rfl

/-- The order of a string comparison: bytes first, then lengths. -/
theorem cmpText_cases (s1 s2 : List UInt8) :
    (cmpText s1 s2 < 0 ∧ s1 < s2) ∨ (cmpText s1 s2 = 0 ∧ s1 = s2)
      ∨ (0 < cmpText s1 s2 ∧ ¬ s1 < s2 ∧ s1 ≠ s2) := by
  induction s1 generalizing s2 with
  | nil =>
      cases s2 with
      | nil => exact Or.inr (Or.inl ⟨rfl, rfl⟩)
      | cons b s2 => exact Or.inl ⟨by simp [cmpText, memcmp], List.nil_lt_cons b s2⟩
  | cons a s1 ih =>
      cases s2 with
      | nil =>
          refine Or.inr (Or.inr ⟨by simp [cmpText, memcmp], List.not_lt_nil _, List.cons_ne_nil _ _⟩)
      | cons b s2 =>
          by_cases hab : a = b
          · subst hab
            rw [cmpText_cons_self]
            rcases ih s2 with ⟨hcmp, hlt⟩ | ⟨hcmp, rfl⟩ | ⟨hcmp, hlt, hne⟩
            · exact Or.inl ⟨hcmp, List.cons_lt_cons_iff.mpr (Or.inr ⟨rfl, hlt⟩)⟩
            · exact Or.inr (Or.inl ⟨hcmp, rfl⟩)
            · refine Or.inr (Or.inr ⟨hcmp, ?_, fun heq => hne (List.cons.inj heq).2⟩)
              intro h
              rcases List.cons_lt_cons_iff.mp h with h | ⟨-, h⟩
              · exact absurd h (UInt8.lt_irrefl a)
              · exact hlt h
          · rw [cmpText_cons_ne hab]
            by_cases hlt : a < b
            · rw [if_pos hlt]
              exact Or.inl ⟨by decide, List.cons_lt_cons_iff.mpr (Or.inl hlt)⟩
            · rw [if_neg hlt]
              refine Or.inr (Or.inr ⟨by decide, ?_, fun heq => hab (List.cons.inj heq).1⟩)
              intro h
              rcases List.cons_lt_cons_iff.mp h with h | ⟨h, -⟩
              · exact hlt h
              · exact hab h

/-! ### Comparisons -/

theorem dataComparable_iff {d1 d2 : Datum} :
    dataComparable d1 d2 = true ↔ d1.type.group = d2.type.group ∧ d1.type.group ≠ .unknown :=
  decide_eq_true_iff

theorem dataArithmetical_iff {d1 d2 : Datum} :
    dataArithmetical d1 d2 = true ↔ d1.type.group = .integer ∧ d2.type.group = .integer :=
  decide_eq_true_iff

theorem dataLexical_iff {d1 d2 : Datum} :
    dataLexical d1 d2 = true ↔ d1.type.group = .character ∧ d2.type.group = .character :=
  decide_eq_true_iff

theorem comparable_of_arithmetical {d1 d2 : Datum} (h : dataArithmetical d1 d2 = true) :
    dataComparable d1 d2 = true := by
  obtain ⟨h1, h2⟩ := dataArithmetical_iff.mp h
  rw [dataComparable_iff, h1, h2]
  exact ⟨rfl, TypeGroup.noConfusion⟩

/-- The subtraction that compares two integers stays in range. -/
def Fits (d1 d2 : Datum) : Prop :=
  d1.type.group = .integer → InRange (d1.integer.toInt - d2.integer.toInt)

instance (d1 d2 : Datum) : Decidable (Fits d1 d2) :=
  inferInstanceAs (Decidable (d1.type.group = .integer → _))

/-- A result with the sign of an order passes the same tests. -/
theorem cmpTest_eq_holds {c : Int} {order : Ordering}
    (h : (c < 0 ∧ order = .lt) ∨ (c = 0 ∧ order = .eq) ∨ (0 < c ∧ order = .gt)) (op : CmpOp) :
    Execute.cmpTest op c = op.holds order := by
  unfold Execute.cmpTest CmpOp.holds
  rcases h with ⟨hc, rfl⟩ | ⟨hc, rfl⟩ | ⟨hc, rfl⟩
  all_goals cases op
  all_goals simp only [decide_eq_decide, reduceCtorEq, iff_false, iff_true, ne_eq, not_true_eq_false,
    not_false_eq_true]
  all_goals omega

section Comparisons

variable {build : Build} {d1 d2 : Datum}

theorem order_cmpInteger (n1 n2 : Int) :
    (n1 - n2 < 0 ∧ compare n1 n2 = .lt) ∨ (n1 - n2 = 0 ∧ compare n1 n2 = .eq)
      ∨ (0 < n1 - n2 ∧ compare n1 n2 = .gt) := by
  rcases Int.lt_trichotomy n1 n2 with h | h | h
  · exact Or.inl ⟨by omega, compare_lt_iff_lt.mpr h⟩
  · exact Or.inr (Or.inl ⟨by omega, compare_eq_iff_eq.mpr h⟩)
  · exact Or.inr (Or.inr ⟨by omega, compare_gt_iff_gt.mpr h⟩)

theorem cmpData_eq (hcomparable : dataComparable d1 d2 = true) (hfits : Fits d1 d2) :
    ∃ c, cmpData build d1 d2 = .ok c ∧ ∀ op, Execute.cmpTest op c = op.holds (d1.order d2) := by
  have hne := (dataComparable_iff.mp hcomparable).2
  unfold cmpData Datum.order
  rw [if_pos hcomparable]
  cases hgroup : d1.type.group with
  | unknown => exact absurd hgroup hne
  | integer =>
      have hrange := hfits hgroup
      refine ⟨d1.integer.toInt - d2.integer.toInt, ?_,
        cmpTest_eq_holds (order_cmpInteger _ _)⟩
      unfold Datum.cmpInteger
      rw [toBaseType_integer, toBaseType_integer, subInt64_of_inRange hrange]
      exact congrArg Except.ok (Int64.toInt_ofInt_of_le hrange.1 hrange.2)
  | character =>
      refine ⟨d1.cmpCharacter d2, rfl, cmpTest_eq_holds ?_⟩
      rw [cmpCharacter_eq]
      rcases cmpText_cases d1.text d2.text with ⟨hcmp, hlt⟩ | ⟨hcmp, heq⟩ | ⟨hcmp, hlt, hne⟩
      · exact Or.inl ⟨hcmp, if_pos hlt⟩
      · refine Or.inr (Or.inl ⟨hcmp, ?_⟩)
        rw [heq, if_neg (List.lt_irrefl _), if_pos rfl]
      · refine Or.inr (Or.inr ⟨hcmp, ?_⟩)
        rw [if_neg hlt, if_neg hne]

theorem cmpData_error (hcomparable : dataComparable d1 d2 = true) (hfits : ¬ Fits d1 d2) :
    cmpData build d1 d2 = .error .signedOverflow := by
  obtain ⟨hgroup, hrange⟩ := Classical.not_imp.mp hfits
  unfold cmpData Datum.cmpInteger
  rw [if_pos hcomparable, hgroup]
  dsimp only
  rw [toBaseType_integer, toBaseType_integer, subInt64_of_not_inRange hrange]
  rfl

theorem datumZeroed_eq {d : Datum} (h : d.type.group ≠ .unknown) :
    datumZeroed build d = .ok (! d.truth) := by
  have hzero : d.integer = 0 ↔ d.integer.toInt = 0 := Int64.toInt_inj.symm
  unfold datumZeroed Datum.truth
  cases htype : d.type with
  | unknown | name =>
      rw [htype] at h
      exact absurd rfl h
  | smallint | integer | bigint => simp [DatumType.group, hzero, pure, Except.pure]
  | char | varchar => simp [DatumType.group, pure, Except.pure]

theorem likeData_eq (h : dataLexical d1 d2 = true) :
    likeData build d1 d2 = .ok (Wildcard.accepts 95 37 d2.text d1.text) := by
  unfold likeData
  rw [Build.assert_of _ h, toBaseType_character, toBaseType_character, like_eq]
  rfl

end Comparisons

/-! ### Operators -/

section Operators

variable {build : Build} {d1 d2 d : Datum}

theorem ofInt_eq_ok {n : Int} : Datum.ofInt n = .ok d ↔ InRange n ∧ d = makeBigint (.ofInt n) := by
  unfold Datum.ofInt InRange
  constructor
  · intro h
    split at h
    · rename_i hrange
      cases h
      exact ⟨hrange, rfl⟩
    · cases h
  · rintro ⟨hrange, rfl⟩
    rw [if_pos hrange]

theorem require_eq_ok {b : Bool} {u : Unit} : Expr.require b = .ok u ↔ b = true := by
  cases b with
  | false => exact iff_of_false (by rintro ⟨⟩) Bool.false_ne_true
  | true => exact iff_of_true rfl rfl

theorem calcData_eq {f : Int64 → Int64 → Except Fault Int64} {x : Int64}
    (h : dataArithmetical d1 d2 = true) (hf : f d1.integer d2.integer = .ok x) :
    calcData build f d1 d2 = .ok (makeBigint x) := by
  unfold calcData
  rw [if_pos (comparable_of_arithmetical h), (dataArithmetical_iff.mp h).1]
  dsimp only
  rw [toBaseType_integer, toBaseType_integer, hf]
  rfl

theorem calcData_error {f : Int64 → Int64 → Except Fault Int64} {fault : Fault}
    (h : dataArithmetical d1 d2 = true) (hf : f d1.integer d2.integer = .error fault) :
    calcData build f d1 d2 = .error fault := by
  unfold calcData
  rw [if_pos (comparable_of_arithmetical h), (dataArithmetical_iff.mp h).1]
  dsimp only
  rw [toBaseType_integer, toBaseType_integer, hf]
  rfl

theorem calculate_eq_ok {f : Int → Int → Int} :
    Expr.calculate f d1 d2 = .ok d ↔ dataArithmetical d1 d2 = true
      ∧ InRange (f d1.integer.toInt d2.integer.toInt)
      ∧ d = makeBigint (.ofInt (f d1.integer.toInt d2.integer.toInt)) := by
  unfold Expr.calculate
  rw [bind_eq_ok]
  constructor
  · rintro ⟨u, hrequire, hint⟩
    exact ⟨require_eq_ok.mp hrequire, ofInt_eq_ok.mp hint⟩
  · rintro ⟨hrequire, hint⟩
    exact ⟨(), require_eq_ok.mpr hrequire, ofInt_eq_ok.mpr hint⟩

theorem divide_eq_ok {f : Int → Int → Int} :
    Expr.divide f d1 d2 = .ok d ↔ dataArithmetical d1 d2 = true ∧ d2.integer.toInt ≠ 0
      ∧ InRange (f d1.integer.toInt d2.integer.toInt)
      ∧ d = makeBigint (.ofInt (f d1.integer.toInt d2.integer.toInt)) := by
  unfold Expr.divide
  rw [bind_eq_ok]
  constructor
  · rintro ⟨u, hrequire, hint⟩
    split at hint
    · cases hint
    · rename_i hne
      exact ⟨require_eq_ok.mp hrequire, hne, ofInt_eq_ok.mp hint⟩
  · rintro ⟨hrequire, hne, hint⟩
    refine ⟨(), require_eq_ok.mpr hrequire, ?_⟩
    rw [if_neg hne]
    exact ofInt_eq_ok.mpr hint

end Operators

end Scroller
