import Mathlib.Data.Set.Insert
import Scroller.Proof.Calculation

/-!
# The order of data

`cmp_data` on integers and on characters. The comparison of two integers has the right sign exactly where their
difference fits the type that it is computed in; that of two strings has it always, and it orders the strings
without the blanks at the end of a `CHAR`.
-/

namespace Scroller

/-- `eq_data` to `ge_data`, where `cmp_data` returns. -/
def DataRelation (build : Build) (op : CmpOp) (d1 d2 : Datum) : Prop :=
  ∃ c, cmpData build d1 d2 = .ok c ∧ Execute.cmpTest op c = true

/-- The relations of the integers. -/
def CmpOp.ofInts (op : CmpOp) (n1 n2 : Int) : Prop :=
  match op with
  | .eq => n1 = n2
  | .ne => n1 ≠ n2
  | .lt => n1 < n2
  | .le => n1 ≤ n2
  | .gt => n1 > n2
  | .ge => n1 ≥ n2

section

variable {build : Build} {d1 d2 d3 : Datum}

theorem dataRelation_of_ok {op : CmpOp} {c : Int} (h : cmpData build d1 d2 = .ok c) :
    DataRelation build op d1 d2 ↔ Execute.cmpTest op c = true := by
  constructor
  · rintro ⟨c', hc', htest⟩
    rw [h] at hc'
    cases hc'
    exact htest
  · intro htest
    exact ⟨c, h, htest⟩

theorem cmpTest_iff_ofInts {op : CmpOp} {n1 n2 : Int} :
    Execute.cmpTest op (n1 - n2) = true ↔ op.ofInts n1 n2 := by
  unfold Execute.cmpTest CmpOp.ofInts
  cases op
  all_goals rw [decide_eq_true_iff]
  all_goals omega

/-! ### Integers -/

/-- `cmp_data` on a set of data is the order of their integers. -/
structure OrdersIntegers (build : Build) (data : Set Datum) : Prop where
  sign : ∀ d1 ∈ data, ∀ d2 ∈ data, ∃ c, cmpData build d1 d2 = .ok c
    ∧ c.sign = (d1.integer.toInt - d2.integer.toInt).sign
  relations : ∀ d1 ∈ data, ∀ d2 ∈ data, ∀ op,
    DataRelation build op d1 d2 ↔ op.ofInts d1.integer.toInt d2.integer.toInt
  antisymm : ∀ d1 ∈ data, ∀ d2 ∈ data, DataRelation build .le d1 d2 → DataRelation build .le d2 d1 →
    DataRelation build .eq d1 d2
  trans : ∀ d1 ∈ data, ∀ d2 ∈ data, ∀ d3 ∈ data, DataRelation build .le d1 d2 →
    DataRelation build .le d2 d3 → DataRelation build .le d1 d3
  total : ∀ d1 ∈ data, ∀ d2 ∈ data, DataRelation build .le d1 d2 ∨ DataRelation build .le d2 d1

theorem comparable_of_integers (h1 : d1.type.group = .integer) (h2 : d2.type.group = .integer) :
    dataComparable d1 d2 = true :=
  comparable_of_arithmetical (dataArithmetical_iff.mpr ⟨h1, h2⟩)

/-- In range, two integers are compared by their difference. -/
theorem cmpData_integers (h1 : d1.type.group = .integer) (h2 : d2.type.group = .integer)
    (hrange : InRange (d1.integer.toInt - d2.integer.toInt)) :
    cmpData build d1 d2 = .ok (d1.integer.toInt - d2.integer.toInt) := by
  unfold cmpData Datum.cmpInteger
  rw [if_pos (comparable_of_integers h1 h2), h1]
  dsimp only
  rw [toBaseType_integer, toBaseType_integer, subInt64_of_inRange hrange]
  exact congrArg Except.ok (Int64.toInt_ofInt_of_le hrange.1 hrange.2)

theorem relation_integers (h1 : d1.type.group = .integer) (h2 : d2.type.group = .integer)
    (hrange : InRange (d1.integer.toInt - d2.integer.toInt)) (op : CmpOp) :
    DataRelation build op d1 d2 ↔ op.ofInts d1.integer.toInt d2.integer.toInt := by
  rw [dataRelation_of_ok (cmpData_integers h1 h2 hrange), cmpTest_iff_ofInts]

theorem ordersIntegers_of_relations {data : Set Datum}
    (hsign : ∀ d1 ∈ data, ∀ d2 ∈ data, ∃ c, cmpData build d1 d2 = .ok c
      ∧ c.sign = (d1.integer.toInt - d2.integer.toInt).sign)
    (h : ∀ d1 ∈ data, ∀ d2 ∈ data, ∀ op,
      DataRelation build op d1 d2 ↔ op.ofInts d1.integer.toInt d2.integer.toInt) :
    OrdersIntegers build data := by
  refine { sign := hsign, relations := h, antisymm := ?_, trans := ?_, total := ?_ }
  · intro d1 hd1 d2 hd2 hle hge
    rw [h d1 hd1 d2 hd2] at hle ⊢
    rw [h d2 hd2 d1 hd1] at hge
    exact Int.le_antisymm hle hge
  · intro d1 hd1 d2 hd2 d3 hd3 h12 h23
    rw [h d1 hd1 d2 hd2] at h12
    rw [h d2 hd2 d3 hd3] at h23
    rw [h d1 hd1 d3 hd3]
    exact Int.le_trans h12 h23
  · intro d1 hd1 d2 hd2
    rw [h d1 hd1 d2 hd2, h d2 hd2 d1 hd1]
    exact Int.le_total _ _

/-- **Integers are ordered by `cmp_data`** exactly where all their differences fit into 64 bits. -/
theorem ordersIntegers_iff {data : Set Datum} (hdata : ∀ d ∈ data, d.type.group = .integer) :
    OrdersIntegers build data
      ↔ ∀ d1 ∈ data, ∀ d2 ∈ data, InRange (d1.integer.toInt - d2.integer.toInt) := by
  constructor
  · intro horders d1 hd1 d2 hd2
    by_contra hrange
    obtain ⟨c, hc, -⟩ := horders.sign d1 hd1 d2 hd2
    rw [cmpData_error (comparable_of_integers (hdata d1 hd1) (hdata d2 hd2))
      (fun hfits => hrange (hfits (hdata d1 hd1)))] at hc
    cases hc
  · intro hrange
    apply ordersIntegers_of_relations
    · intro d1 hd1 d2 hd2
      exact ⟨_, cmpData_integers (hdata d1 hd1) (hdata d2 hd2) (hrange d1 hd1 d2 hd2), rfl⟩
    · intro d1 hd1 d2 hd2
      exact relation_integers (hdata d1 hd1) (hdata d2 hd2) (hrange d1 hd1 d2 hd2)

theorem ordersIntegers_iff_small :
    OrdersIntegers .release {⟨.smallint, -5, []⟩, ⟨.bigint, 7, []⟩} := by
  apply (ordersIntegers_iff ?_).mpr
  · intro d1 hd1 d2 hd2
    rcases hd1 with rfl | rfl <;> rcases hd2 with rfl | rfl <;> decide
  · intro d hd
    rcases hd with rfl | rfl <;> rfl

/-- The smallest integer is too far away from 1. -/
theorem smallest_not_ordered :
    ¬ OrdersIntegers .release {⟨.bigint, Int64.minValue, []⟩, ⟨.smallint, 1, []⟩} := by
  intro horders
  obtain ⟨c, hc, -⟩ := horders.sign _ (Or.inl rfl) _ (Or.inr rfl)
  have herror : cmpData .release ⟨.bigint, Int64.minValue, []⟩ ⟨.smallint, 1, []⟩
      = .error .signedOverflow := by decide
  rw [herror] at hc
  cases hc

/-! ### Characters -/

/-- `cmp_data` on characters is the order of their texts, from byte to byte, a proper prefix in front. -/
structure OrdersCharacters (build : Build) : Prop where
  sign : ∀ d1 d2, dataLexical d1 d2 = true → ∃ c, cmpData build d1 d2 = .ok c
    ∧ (c < 0 ↔ d1.text < d2.text) ∧ (c = 0 ↔ d1.text = d2.text) ∧ (0 < c ↔ d2.text < d1.text)
  equal : ∀ d1 d2, dataLexical d1 d2 = true → (DataRelation build .eq d1 d2 ↔ d1.text = d2.text)
  refl : ∀ d, d.type.group = .character → DataRelation build .le d d
  trans : ∀ d1 d2 d3, dataLexical d1 d2 = true → dataLexical d2 d3 = true →
    DataRelation build .le d1 d2 → DataRelation build .le d2 d3 → DataRelation build .le d1 d3
  total : ∀ d1 d2, dataLexical d1 d2 = true →
    DataRelation build .le d1 d2 ∨ DataRelation build .le d2 d1

theorem cmpData_characters (h : dataLexical d1 d2 = true) :
    cmpData build d1 d2 = .ok (cmpText d1.text d2.text) := by
  obtain ⟨h1, h2⟩ := dataLexical_iff.mp h
  have hcomparable : dataComparable d1 d2 = true := by
    rw [dataComparable_iff, h1, h2]
    exact ⟨rfl, TypeGroup.noConfusion⟩
  unfold cmpData
  rw [if_pos hcomparable, h1, ← cmpCharacter_eq]
  rfl

/-- The sign of a comparison of two strings says which one is in front. -/
theorem cmpText_sign (s1 s2 : List UInt8) :
    (cmpText s1 s2 < 0 ↔ s1 < s2) ∧ (cmpText s1 s2 = 0 ↔ s1 = s2) ∧ (0 < cmpText s1 s2 ↔ s2 < s1) := by
  rcases cmpText_cases s1 s2 with ⟨hcmp, hlt⟩ | ⟨hcmp, rfl⟩ | ⟨hcmp, hnlt, hne⟩
  · have hne : s1 ≠ s2 := by
      intro heq
      rw [heq] at hlt
      exact List.lt_irrefl s2 hlt
    exact ⟨iff_of_true hcmp hlt, iff_of_false (by omega) hne,
      iff_of_false (by omega) (List.lt_asymm hlt)⟩
  · exact ⟨iff_of_false (by omega) (List.lt_irrefl s1), iff_of_true hcmp rfl,
      iff_of_false (by omega) (List.lt_irrefl s1)⟩
  · have hgt : s2 < s1 := by
      by_contra hnot
      exact hne (List.le_antisymm (List.not_lt.mp hnot) (List.not_lt.mp hnlt))
    exact ⟨iff_of_false (by omega) hnlt, iff_of_false (by omega) hne, iff_of_true hcmp hgt⟩

theorem le_characters (h : dataLexical d1 d2 = true) :
    DataRelation build .le d1 d2 ↔ d1.text ≤ d2.text := by
  obtain ⟨-, -, hgt⟩ := cmpText_sign d1.text d2.text
  have hle : Execute.cmpTest .le (cmpText d1.text d2.text) = true ↔ cmpText d1.text d2.text ≤ 0 :=
    decide_eq_true_iff
  rw [dataRelation_of_ok (cmpData_characters h), hle, ← List.not_lt, ← hgt, Int.not_lt]

theorem eq_characters (h : dataLexical d1 d2 = true) :
    DataRelation build .eq d1 d2 ↔ d1.text = d2.text := by
  rw [dataRelation_of_ok (cmpData_characters h), ← (cmpText_sign d1.text d2.text).2.1]
  exact decide_eq_true_iff

theorem lexical_symm (h : dataLexical d1 d2 = true) : dataLexical d2 d1 = true :=
  dataLexical_iff.mpr (dataLexical_iff.mp h).symm

theorem lexical_trans (h12 : dataLexical d1 d2 = true) (h23 : dataLexical d2 d3 = true) :
    dataLexical d1 d3 = true :=
  dataLexical_iff.mpr ⟨(dataLexical_iff.mp h12).1, (dataLexical_iff.mp h23).2⟩

/-- **Characters are ordered by `cmp_data`**, in every mix of `CHAR` and `VARCHAR`. -/
theorem ordersCharacters (build : Build) : OrdersCharacters build := by
  refine { sign := ?_, equal := ?_, refl := ?_, trans := ?_, total := ?_ }
  · intro d1 d2 hlexical
    exact ⟨_, cmpData_characters hlexical, cmpText_sign d1.text d2.text⟩
  · intro d1 d2 hlexical
    exact eq_characters hlexical
  · intro d hgroup
    exact (le_characters (dataLexical_iff.mpr ⟨hgroup, hgroup⟩)).mpr (List.le_refl d.text)
  · intro d1 d2 d3 h12 h23 hle hle'
    apply (le_characters (lexical_trans h12 h23)).mpr
    exact List.le_trans ((le_characters h12).mp hle) ((le_characters h23).mp hle')
  · intro d1 d2 hlexical
    rw [le_characters hlexical, le_characters (lexical_symm hlexical)]
    exact List.le_total d1.text d2.text

end

end Scroller
