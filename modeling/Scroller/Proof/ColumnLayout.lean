import Scroller.HqueryCmd

/-!
# The layout of columns

`hgrid_add_column` rounds the running row size up with the mask that belongs to powers of two, but to the size
of any column, and keeps it in 16 bits. The columns lie one behind the other as long as no empty column follows
a nonempty one and the row size stays in its bits.
-/

namespace Scroller

/-! ### Rounding up with a mask -/

theorem toNat_and_not (x m : UInt64) : (x &&& ~~~m).toNat = x.toNat - (x.toNat &&& m.toNat) := by
  have hapart : (x.toBitVec &&& m.toBitVec) &&& (x.toBitVec &&& ~~~m.toBitVec) = 0#64 := by
    ext i
    simp only [BitVec.getElem_and, BitVec.getElem_not, BitVec.getElem_zero]
    cases m.toBitVec[i] <;> simp
  have hjoin : (x.toBitVec &&& m.toBitVec) ||| (x.toBitVec &&& ~~~m.toBitVec) = x.toBitVec := by
    ext i
    simp only [BitVec.getElem_or, BitVec.getElem_and, BitVec.getElem_not]
    cases m.toBitVec[i] <;> simp
  have hsum := BitVec.toNat_add_of_and_eq_zero hapart
  rw [BitVec.add_eq_or_of_and_eq_zero _ _ hapart, hjoin] at hsum
  change x.toNat = (x.toNat &&& m.toNat) + (x &&& ~~~m).toNat at hsum
  omega

/-- Where a column of `size` bytes is put behind `datasz` bytes: the mask of `size - 1` is cleared, whether
`size` is a power of two or not. -/
def place (datasz size : Nat) : Nat := datasz + (size - 1) - (datasz + (size - 1) &&& (size - 1))

theorem le_place (datasz size : Nat) : datasz ≤ place datasz size := by
  have hmask : datasz + (size - 1) &&& (size - 1) ≤ size - 1 := Nat.and_le_right
  rw [place]
  omega

/-- A size below the sign bit of `int` keeps its value. -/
theorem toInt32_ofNat {size : Nat} (h : size < 2 ^ 16) :
    (UInt64.ofNat size).toInt64.toInt32.toInt64.toUInt64 = .ofNat size := by
  apply UInt64.toBitVec_inj.mp
  change BitVec.signExtend 64 (BitVec.signExtend 32 (BitVec.ofNat 64 size)) = BitVec.ofNat 64 size
  rw [BitVec.signExtend_eq_setWidth_of_le (BitVec.ofNat 64 size) (show 32 ≤ 64 by decide),
    BitVec.signExtend_eq_setWidth_of_msb_false]
  · apply BitVec.eq_of_toNat_eq
    simp only [BitVec.toNat_setWidth, BitVec.toNat_ofNat]
    omega
  · rw [BitVec.msb_eq_false_iff_two_mul_lt]
    simp only [BitVec.toNat_setWidth, BitVec.toNat_ofNat]
    omega

theorem alignUp_eq_place {datasz size : Nat} (hdatasz : datasz < 2 ^ 16) (hsize : size < 2 ^ 16)
    (hpos : 0 < size ∨ datasz = 0) :
    (alignUp (.ofNat datasz) (.ofNat size)).toNat = place datasz size := by
  rcases Nat.eq_zero_or_pos size with rfl | hsize'
  · have hzero : datasz = 0 := by omega
    subst hzero
    decide
  · have hone : (1 : UInt64).toNat = 1 := rfl
    have hmask : (UInt64.ofNat size - 1).toNat = size - 1 := by
      rw [UInt64.toNat_sub_of_le, UInt64.toNat_ofNat', hone]
      · omega
      · rw [UInt64.le_iff_toNat_le, UInt64.toNat_ofNat', hone]
        omega
    have hsum : (UInt64.ofNat datasz + UInt64.ofNat size - 1).toNat = datasz + (size - 1) := by
      rw [UInt64.toNat_sub_of_le, UInt64.toNat_add, UInt64.toNat_ofNat', UInt64.toNat_ofNat', hone]
      · omega
      · rw [UInt64.le_iff_toNat_le, UInt64.toNat_add, UInt64.toNat_ofNat', UInt64.toNat_ofNat', hone]
        omega
    rw [alignUp, toInt32_ofNat hsize, toNat_and_not, hmask, hsum, place]

theorem alignUp_zero {datasz : Nat} : (alignUp (.ofNat datasz) 0).toNat = 0 := by
  rw [alignUp, toNat_and_not]
  have hall : ((0 : UInt64).toInt64.toInt32.toInt64.toUInt64 - 1).toNat = 2 ^ 64 - 1 := by decide
  rw [hall, Nat.and_two_pow_sub_one_eq_mod, Nat.mod_eq_of_lt (UInt64.toNat_lt _), Nat.sub_self]

theorem hgridGetRowSize_eq {hgrid : Grid} (h : hgrid.datasz < 2 ^ 16) :
    hgridGetRowSize hgrid = (hgrid.datasz + 3) / 4 * 4 := by
  have halign := alignUp_eq_place h (show 4 < 2 ^ 16 by decide) (Or.inl (by decide))
  have hmask := Nat.and_two_pow_sub_one_eq_mod (hgrid.datasz + 3) 2
  rw [hgridGetRowSize]
  change (alignUp (.ofNat hgrid.datasz) (.ofNat 4)).toNat = _
  rw [halign, place]
  change hgrid.datasz + 3 - (hgrid.datasz + 3 &&& (2 ^ 2 - 1)) = _
  rw [hmask]
  omega

theorem hgridGetRowSize_le {hgrid : Grid} (h : hgrid.datasz < 2 ^ 16) :
    hgridGetRowSize hgrid ≤ 2 ^ 16 := by
  rw [hgridGetRowSize_eq h]
  omega

/-! ### Columns one behind the other -/

/-- The size of a column in a row. -/
def Column.cellsz (hc : Column) : Nat := (hc.type.cellsz hc.size).toNat

def Column.limit (hc : Column) : Nat := hc.offs.toNat + hc.cellsz

/-- The columns lie one behind the other within the row size, and the row size is one that `grid_init`
can take as it is. -/
structure Grid.Sound (hgrid : Grid) : Prop where
  ordered : ∀ i j, i < j → j < hgrid.occupied →
    (hgrid.columns i).limit ≤ (hgrid.columns j).offs.toNat
  within : ∀ i < hgrid.occupied, (hgrid.columns i).limit ≤ hgridGetRowSize hgrid
  rowsz_lt : hgridGetRowSize hgrid < 2 ^ 16

/-- The columns fit into a row behind `datasz` bytes: none is empty unless it is in front of all others, and
the last one ends where the row size can still be rounded up. -/
def RowFits : Nat → List Nat → Prop
  | datasz, [] => datasz + 3 < 2 ^ 16
  | datasz, size :: sizes => (size = 0 → datasz = 0) ∧ RowFits (place datasz size + size) sizes

instance : (datasz : Nat) → (sizes : List Nat) → Decidable (RowFits datasz sizes)
  | _, [] => inferInstanceAs (Decidable (_ < _))
  | datasz, size :: sizes =>
      have := instDecidableRowFits (place datasz size + size) sizes
      inferInstanceAs (Decidable (_ ∧ _))

theorem RowFits.le {datasz : Nat} {sizes : List Nat} (h : RowFits datasz sizes) :
    datasz + 3 < 2 ^ 16 := by
  induction sizes generalizing datasz with
  | nil => exact h
  | cons size sizes ih =>
      have hle := le_place datasz size
      have hnext := ih h.2
      omega

/-- The columns so far lie one behind the other, the last one ends at the row size. -/
structure Grid.Packed (hgrid : Grid) : Prop where
  datasz_lt : hgrid.datasz < 2 ^ 16
  ordered : ∀ i j, i < j → j < hgrid.occupied →
    (hgrid.columns i).limit ≤ (hgrid.columns j).offs.toNat
  within : ∀ i < hgrid.occupied, (hgrid.columns i).limit ≤ hgrid.datasz
  last : hgrid.datasz = 0 ∨ ∃ i < hgrid.occupied, (hgrid.columns i).limit = hgrid.datasz

/-- A header with one more column. -/
def Grid.withColumn (hgrid : Grid) (decl : Decl) : Grid :=
  let cursz := decl.type.cellsz decl.size
  let offs := alignUp (.ofNat hgrid.datasz) cursz
  { hgrid with
    occupied := hgrid.occupied + 1
    columns := Function.update hgrid.columns hgrid.occupied
      ⟨decl.name.take (namesz - 1), offs, decl.type, decl.size⟩
    datasz := (offs + cursz).toNat % 2 ^ 16 }

variable {hgrid : Grid} {decl : Decl} {decls : List Decl}

theorem addColumns_of_lt (h : hgrid.occupied < hgrid.rown) :
    addColumns hgrid (decl :: decls) = addColumns (hgrid.withColumn decl) decls := by
  rw [addColumns, hgridAddColumn, gridAllocRow, if_pos h]
  rfl

theorem addColumns_full (h : ¬ hgrid.occupied < hgrid.rown) :
    addColumns hgrid (decl :: decls) = (hgrid, false) := by
  rw [addColumns, hgridAddColumn, gridAllocRow, if_neg h]

theorem addColumns_prefix (hgrid : Grid) (decls : List Decl) :
    hgrid.occupied ≤ (addColumns hgrid decls).1.occupied
      ∧ ∀ i < hgrid.occupied, (addColumns hgrid decls).1.columns i = hgrid.columns i := by
  induction decls generalizing hgrid with
  | nil => exact ⟨Nat.le_refl _, fun _ _ => rfl⟩
  | cons decl decls ih =>
      by_cases hroom : hgrid.occupied < hgrid.rown
      · rw [addColumns_of_lt hroom]
        obtain ⟨hle, hsame⟩ := ih (hgrid.withColumn decl)
        refine ⟨Nat.le_trans (Nat.le_succ _) hle, ?_⟩
        intro i hi
        rw [hsame i (Nat.lt_succ_of_lt hi)]
        exact Function.update_of_ne (Nat.ne_of_lt hi) _ _
      · rw [addColumns_full hroom]
        exact ⟨Nat.le_refl _, fun _ _ => rfl⟩

theorem withColumn_columns_of_lt {i : Nat} (hi : i < hgrid.occupied) :
    (hgrid.withColumn decl).columns i = hgrid.columns i :=
  Function.update_of_ne (Nat.ne_of_lt hi) _ _

@[simp]
theorem withColumn_columns_self :
    (hgrid.withColumn decl).columns hgrid.occupied
      = ⟨decl.name.take (namesz - 1), alignUp (.ofNat hgrid.datasz) (decl.type.cellsz decl.size),
          decl.type, decl.size⟩ := Function.update_self _ _ _

def Decl.cellsz (decl : Decl) : Nat := (decl.type.cellsz decl.size).toNat

theorem Grid.Packed.offs_eq (h : hgrid.Packed) (hempty : decl.cellsz = 0 → hgrid.datasz = 0)
    (hfits : decl.cellsz < 2 ^ 16) :
    ((hgrid.withColumn decl).columns hgrid.occupied).offs.toNat = place hgrid.datasz decl.cellsz := by
  have hpos : 0 < decl.cellsz ∨ hgrid.datasz = 0 := by
    rcases Nat.eq_zero_or_pos decl.cellsz with hzero | hpos
    · exact Or.inr (hempty hzero)
    · exact Or.inl hpos
  have hplace := alignUp_eq_place h.datasz_lt hfits hpos
  rw [Decl.cellsz, UInt64.ofNat_toNat] at hplace
  rw [withColumn_columns_self]
  exact hplace

theorem Grid.Packed.withColumn (h : hgrid.Packed) (hempty : decl.cellsz = 0 → hgrid.datasz = 0)
    (hfits : place hgrid.datasz decl.cellsz + decl.cellsz < 2 ^ 16) :
    (hgrid.withColumn decl).Packed
      ∧ (hgrid.withColumn decl).datasz = place hgrid.datasz decl.cellsz + decl.cellsz := by
  have hle := le_place hgrid.datasz decl.cellsz
  have hoffs := h.offs_eq hempty (by omega)
  have hlimit : ((hgrid.withColumn decl).columns hgrid.occupied).limit
      = place hgrid.datasz decl.cellsz + decl.cellsz := by
    rw [Column.limit, hoffs]
    rw [withColumn_columns_self]
    rfl
  have hdatasz : (hgrid.withColumn decl).datasz = place hgrid.datasz decl.cellsz + decl.cellsz := by
    rw [withColumn_columns_self] at hoffs
    change (alignUp (.ofNat hgrid.datasz) (decl.type.cellsz decl.size)
      + decl.type.cellsz decl.size).toNat % 2 ^ 16 = _
    rw [UInt64.toNat_add, hoffs, ← Decl.cellsz]
    omega
  refine ⟨?_, hdatasz⟩
  have hbelow : ∀ i < hgrid.occupied, ((hgrid.withColumn decl).columns i).limit ≤ hgrid.datasz := by
    intro i hi
    rw [withColumn_columns_of_lt hi]
    exact h.within i hi
  refine { datasz_lt := by omega, ordered := ?_, within := ?_, last := ?_ }
  · intro i j hij hj
    rcases Nat.lt_or_eq_of_le (Nat.le_of_lt_succ hj) with hlt | rfl
    · rw [withColumn_columns_of_lt hlt, withColumn_columns_of_lt (Nat.lt_trans hij hlt)]
      exact h.ordered i j hij hlt
    · rw [hoffs]
      exact Nat.le_trans (hbelow i hij) hle
  · intro i hi
    rw [hdatasz]
    rcases Nat.lt_or_eq_of_le (Nat.le_of_lt_succ hi) with hlt | rfl
    · have hprev := hbelow i hlt
      omega
    · exact Nat.le_of_eq hlimit
  · right
    refine ⟨hgrid.occupied, Nat.lt_succ_self _, ?_⟩
    rw [hlimit, hdatasz]

theorem Grid.Packed.sound_iff (h : hgrid.Packed) : hgrid.Sound ↔ hgrid.datasz + 3 < 2 ^ 16 := by
  have hsize := hgridGetRowSize_eq h.datasz_lt
  constructor
  · intro hsound
    have hlt := hsound.rowsz_lt
    omega
  · intro hfits
    refine { ordered := h.ordered, within := ?_, rowsz_lt := by omega }
    intro i hi
    have hlimit := h.within i hi
    omega

/-- What a sound header says of a column that was added on the way to it. -/
theorem Grid.Packed.fits_of_sound (h : hgrid.Packed)
    (hsound : (addColumns (hgrid.withColumn decl) decls).1.Sound) :
    (decl.cellsz = 0 → hgrid.datasz = 0) ∧ place hgrid.datasz decl.cellsz + decl.cellsz < 2 ^ 16 := by
  obtain ⟨hle, hsame⟩ := addColumns_prefix (hgrid.withColumn decl) decls
  have hlast : hgrid.occupied < (addColumns (hgrid.withColumn decl) decls).1.occupied := hle
  have hlimit := hsound.within hgrid.occupied hlast
  rw [hsame _ (Nat.lt_succ_self hgrid.occupied), Column.limit, withColumn_columns_self] at hlimit
  have hrowsz := hsound.rowsz_lt
  have hempty : decl.cellsz = 0 → hgrid.datasz = 0 := by
    intro hzero
    have hsize : decl.type.cellsz decl.size = 0 := UInt64.toNat_inj.mp hzero
    rcases h.last with hdatasz | ⟨i, hi, hend⟩
    · exact hdatasz
    · have hordered := hsound.ordered i hgrid.occupied hi hlast
      rw [hsame _ (Nat.lt_succ_self hgrid.occupied), hsame i (Nat.lt_succ_of_lt hi),
        withColumn_columns_of_lt hi, withColumn_columns_self, hend] at hordered
      change _ ≤ (alignUp (.ofNat hgrid.datasz) (decl.type.cellsz decl.size)).toNat at hordered
      rw [hsize, alignUp_zero] at hordered
      exact Nat.le_zero.mp hordered
  have hfits : decl.cellsz < 2 ^ 16 := by
    change _ + decl.cellsz ≤ _ at hlimit
    omega
  have hoffs := h.offs_eq hempty hfits
  rw [withColumn_columns_self] at hoffs
  refine ⟨hempty, ?_⟩
  change _ + decl.cellsz ≤ _ at hlimit
  rw [hoffs] at hlimit
  omega

theorem Grid.Packed.addColumns_sound (h : hgrid.Packed) :
    (addColumns hgrid decls).1.Sound
      ↔ RowFits hgrid.datasz ((decls.take (hgrid.rown - hgrid.occupied)).map Decl.cellsz) := by
  induction decls generalizing hgrid with
  | nil =>
      rw [List.take_nil]
      exact h.sound_iff
  | cons decl decls ih =>
      by_cases hroom : hgrid.occupied < hgrid.rown
      · obtain ⟨k, hk⟩ := Nat.exists_eq_add_of_lt hroom
        have hleft : hgrid.rown - hgrid.occupied = k + 1 := by omega
        have hright : (hgrid.withColumn decl).rown - (hgrid.withColumn decl).occupied = k := by
          change hgrid.rown - (hgrid.occupied + 1) = k
          omega
        rw [addColumns_of_lt hroom, hleft, List.take_succ_cons, List.map_cons, RowFits]
        constructor
        · intro hsound
          obtain ⟨hempty, hfits⟩ := h.fits_of_sound hsound
          obtain ⟨hpacked, hdatasz⟩ := h.withColumn hempty hfits
          refine ⟨hempty, ?_⟩
          have hrest := (ih hpacked).mp hsound
          rwa [hright, hdatasz] at hrest
        · rintro ⟨hempty, hrest⟩
          have hle := hrest.le
          obtain ⟨hpacked, hdatasz⟩ := h.withColumn hempty (by omega)
          apply (ih hpacked).mpr
          rwa [hright, hdatasz]
      · have hleft : hgrid.rown - hgrid.occupied = 0 := by omega
        rw [addColumns_full hroom, hleft]
        exact h.sound_iff

/-! ### The columns of a new header -/

theorem packed_of_gridInit {build : Build} {pagesz : Nat} {content : GridContent}
    (h : gridInit build pagesz content sizeofColumn = .ok hgrid) :
    hgrid.Packed ∧ hgrid.datasz = 0 ∧ hgrid.occupied = 0 := by
  obtain ⟨-, -, h⟩ := bind_eq_ok.mp h
  have hne : ¬ sizeofColumn % 2 ^ 16 = 0 := by decide
  rw [if_neg hne] at h
  cases h
  refine ⟨?_, rfl, rfl⟩
  refine { datasz_lt := by simp, ordered := ?_, within := ?_, last := Or.inl rfl }
  · intro i j hij hj
    exact (Nat.not_lt_zero j hj).elim
  · intro i hi
    exact (Nat.not_lt_zero i hi).elim

/-- **The layout of columns is sound** exactly where the columns that the header has room for fit into a row. -/
theorem addColumns_sound_iff {build : Build} {pagesz : Nat} {content : GridContent}
    (h : gridInit build pagesz content sizeofColumn = .ok hgrid) (decls : List Hquery.ColumnDecl) :
    (addColumns hgrid (decls.map Hquery.ColumnDecl.decl)).1.Sound
      ↔ RowFits 0 (((decls.map Hquery.ColumnDecl.decl).take hgrid.rown).map Decl.cellsz) := by
  obtain ⟨hpacked, hdatasz, hempty⟩ := packed_of_gridInit h
  have hiff := @Grid.Packed.addColumns_sound hgrid (decls.map Hquery.ColumnDecl.decl) hpacked
  rwa [hdatasz, hempty, Nat.sub_zero] at hiff

theorem addColumns_sound_iff_char :
    ∃ hgrid, gridInit .debug 4096 .pure sizeofColumn = .ok hgrid
      ∧ (addColumns hgrid ([⟨[97], .integer⟩, ⟨[98], .char 5⟩, ⟨[99], .smallint⟩].map
        Hquery.ColumnDecl.decl)).1.Sound := by
  have hinit : gridInit .debug 4096 .pure sizeofColumn = _ := rfl
  refine ⟨_, hinit, (addColumns_sound_iff hinit _).mpr ?_⟩
  decide

/-- `CHAR(0)` behind a column, and the column behind it, start at the front of the row. -/
theorem char_zero_overlaps :
    ∃ hgrid, gridInit .debug 4096 .pure sizeofColumn = .ok hgrid
      ∧ ¬ (addColumns hgrid ([⟨[97], .bigint⟩, ⟨[98], .char 0⟩, ⟨[99], .bigint⟩].map
        Hquery.ColumnDecl.decl)).1.Sound := by
  refine ⟨_, rfl, ?_⟩
  intro hsound
  have hordered := hsound.ordered 0 1 (by decide) (by decide)
  revert hordered
  decide

end Scroller
