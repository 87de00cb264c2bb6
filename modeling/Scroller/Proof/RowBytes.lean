import Scroller.Proof.GridCells

/-!
# Rows in bytes

What a row of cells is in the bytes of its page: the bytes of each cell at the place of its column, and zeros
between them. Writing a cell on either level and looking at the bytes afterwards is the same.
-/

namespace Scroller

open LittleEndian ByteMemory

/-- The bytes of a cell of a column. -/
def Column.cellBytes (hc : Column) (cell : Cell) : List UInt8 :=
  match hc.type with
  | .unknown | .name => []
  | .smallint => toBytes 2 cell.integer.toUInt64.toNat
  | .integer => toBytes 4 cell.integer.toUInt64.toNat
  | .bigint => toBytes 8 cell.integer.toUInt64.toNat
  | .char | .varchar => (List.range hc.size.toNat).map fun i => cell.character.getD i 0

/-- The cell has an integer of the column's type. -/
def Column.InRange (hc : Column) (cell : Cell) : Prop :=
  match hc.type with
  | .smallint => cell.integer.toInt16.toInt64 = cell.integer
  | .integer => cell.integer.toInt32.toInt64 = cell.integer
  | .bigint | .unknown | .name | .char | .varchar => True

/-- A byte of a row belongs to a column. -/
def Column.Covers (hc : Column) (p : Nat) : Prop := hc.offs.toNat ≤ p ∧ p < hc.offs.toNat + hc.width

instance (hc : Column) (p : Nat) : Decidable (hc.Covers p) := inferInstanceAs (Decidable (_ ∧ _))

namespace Grid

/-- The column that a byte of a row belongs to. -/
def columnAt (hgrid : Grid) (p : Nat) : Option Nat :=
  (List.range hgrid.occupied).find? fun i => (hgrid.columns i).Covers p

def byteAt (hgrid : Grid) (row : Row) (p : Nat) : UInt8 :=
  match hgrid.columnAt p with
  | none => 0
  | some i => ((hgrid.columns i).cellBytes (row i)).getD (p - (hgrid.columns i).offs.toNat) 0

def rowBytes (hgrid : Grid) (row : Row) : List UInt8 :=
  (List.range (hgridGetRowSize hgrid)).map (hgrid.byteAt row)

end Grid

variable {hc : Column} {hgrid : Grid} {cell : Cell} {row : Row} {column p : Nat}

/-! ### The bytes of one cell -/

@[simp]
theorem length_cellBytes (hc : Column) (cell : Cell) : (hc.cellBytes cell).length = hc.width := by
  rw [Column.cellBytes, Column.width]
  cases hc.type with
  | unknown | name => rfl
  | smallint | integer | bigint => exact length_toBytes _ _
  | char | varchar => rw [List.length_map, List.length_range]

theorem toBytes_zero (k : Nat) : toBytes k 0 = List.replicate k 0 := by
  induction k with
  | zero => rfl
  | succ k ih => rw [toBytes, Nat.zero_div, ih, List.replicate_succ]; rfl

theorem cellBytes_zero (hc : Column) : hc.cellBytes .zero = List.replicate hc.width 0 := by
  rw [Column.cellBytes, Column.width]
  cases hc.type with
  | unknown | name => rfl
  | smallint | integer | bigint => exact toBytes_zero _
  | char | varchar =>
      rw [List.eq_replicate_iff]
      simp [Cell.zero]

theorem inRange_zero (hc : Column) : hc.InRange .zero := by
  rw [Column.InRange]
  cases hc.type with
  | unknown | name | bigint | char | varchar => trivial
  | smallint | integer => rfl

/-- The lowest bytes of a number are those of what is left of it in them. -/
theorem toBytes_mod (k n : Nat) : toBytes k (n % 256 ^ k) = toBytes k n := by
  induction k generalizing n with
  | zero => rfl
  | succ k ih =>
      have hhigh : n % 256 ^ (k + 1) / 256 = n / 256 % 256 ^ k := by
        rw [Nat.pow_succ, Nat.mul_comm, Nat.mod_mul_right_div_self]
      have hlow : (n % 256 ^ (k + 1)).toUInt8 = n.toUInt8 := by
        apply UInt8.toNat_inj.mp
        rw [UInt8.toNat_ofNat', UInt8.toNat_ofNat', Nat.pow_succ, Nat.mul_comm]
        exact Nat.mod_mul_right_mod n 256 _
      rw [toBytes, toBytes, hhigh, hlow, ih]

theorem setWidth_signExtend {w k : Nat} (x : BitVec w) (h : w ≤ k) : (x.signExtend k).setWidth w = x := by
  ext i hi
  rw [BitVec.getElem_setWidth, BitVec.getLsbD_signExtend, if_pos hi]
  simp [BitVec.getLsbD_eq_getElem hi, Nat.lt_of_lt_of_le hi h]

namespace GridPage

variable {build : Build} {mem mem' : Memory} {c : Nat} {d : Datum}

theorem write_nil (mem : Memory) (c : Nat) : write mem c [] = mem := by
  funext i
  by_cases hi : i < c
  · exact write_of_lt hi
  · exact write_of_le (Nat.not_lt.mp hi)

theorem write_slice (mem : Memory) (c n : Nat) : write mem c (slice mem c n) = mem := by
  funext i
  by_cases hlt : i < c
  · exact write_of_lt hlt
  by_cases hge : c + n ≤ i
  · exact write_of_le (by rwa [length_slice])
  obtain ⟨k, rfl⟩ := Nat.exists_eq_add_of_le (Nat.not_lt.mp hlt)
  have hk : k < (slice mem c n).length := by
    rw [length_slice]
    omega
  rw [write_add hk, getElem_slice]

theorem putInt_of_slice {sz : Nat} {v : Int64} (h : slice mem c sz = toBytes sz v.toUInt64.toNat) :
    putInt mem c sz v = mem := by rw [putInt, store, ← h, write_slice]

/-- Reading the bytes of a cell gives what the cell holds. -/
theorem readCell_eq_getCell (hcell : slice mem c hc.width = hc.cellBytes cell) (hrange : hc.InRange cell) :
    readCell build mem hc c = getCell build hc cell := by
  rw [Column.width, Column.cellBytes] at hcell
  rw [Column.InRange] at hrange
  cases htype : hc.type with
  | unknown | name => simp only [readCell, getCell, htype]
  | smallint =>
      simp only [htype] at hcell hrange
      have hint : getSmallint mem c = cell.integer := by
        calc getSmallint mem c = getSmallint (putInt mem c 2 cell.integer) c := by rw [putInt_of_slice hcell]
          _ = cell.integer := by rw [getSmallint_putInt, hrange]
      simp only [readCell, getCell, htype, hint]
  | integer =>
      simp only [htype] at hcell hrange
      have hint : getInteger mem c = cell.integer := by
        calc getInteger mem c = getInteger (putInt mem c 4 cell.integer) c := by rw [putInt_of_slice hcell]
          _ = cell.integer := by rw [getInteger_putInt, hrange]
      simp only [readCell, getCell, htype, hint]
  | bigint =>
      simp only [htype] at hcell
      have hint : getBigint mem c = cell.integer := by
        calc getBigint mem c = getBigint (putInt mem c 8 cell.integer) c := by rw [putInt_of_slice hcell]
          _ = cell.integer := getBigint_putInt mem c _
      simp only [readCell, getCell, htype, hint]
  | char | varchar =>
      simp only [htype] at hcell
      simp only [readCell, getCell, htype, hcell]

/-- A cut number has the lowest bytes of the number. -/
theorem putInt_toInt16 (mem : Memory) (c : Nat) (v : Int64) :
    putInt mem c 2 v.toInt16.toInt64 = putInt mem c 2 v := by
  have hlow : v.toInt16.toInt64.toBitVec.setWidth 16 = v.toBitVec.setWidth 16 := by
    rw [Int16.toBitVec_toInt64, setWidth_signExtend _ (by decide), Int64.toBitVec_toInt16,
      BitVec.signExtend_eq_setWidth_of_le _ (by decide)]
  have hbytes := congrArg BitVec.toNat hlow
  rw [BitVec.toNat_setWidth, BitVec.toNat_setWidth] at hbytes
  rw [putInt, putInt, store, store, ← toBytes_mod, ← toBytes_mod 2 v.toUInt64.toNat]
  exact congrArg (fun n => write mem c (toBytes 2 n)) hbytes

theorem putInt_toInt32 (mem : Memory) (c : Nat) (v : Int64) :
    putInt mem c 4 v.toInt32.toInt64 = putInt mem c 4 v := by
  have hlow : v.toInt32.toInt64.toBitVec.setWidth 32 = v.toBitVec.setWidth 32 := by
    rw [Int32.toBitVec_toInt64, setWidth_signExtend _ (by decide), Int64.toBitVec_toInt32,
      BitVec.signExtend_eq_setWidth_of_le _ (by decide)]
  have hbytes := congrArg BitVec.toNat hlow
  rw [BitVec.toNat_setWidth, BitVec.toNat_setWidth] at hbytes
  rw [putInt, putInt, store, store, ← toBytes_mod, ← toBytes_mod 4 v.toUInt64.toNat]
  exact congrArg (fun n => write mem c (toBytes 4 n)) hbytes

theorem chars_putChar (s : List UInt8) (n : Nat) :
    ((List.range n).map fun i => (putChar s n).getD i 0) = putChar s n := by
  apply List.ext_getElem
  · rw [List.length_map, List.length_range, length_putChar]
  · intro i hi hi'
    rw [List.getElem_map, List.getElem_range, List.getD_eq_getElem _ _ hi']

/-- Writing to the bytes of a cell gives the bytes of what is written to the cell. -/
theorem writeCell_eq_putCell (hcell : slice mem c hc.width = hc.cellBytes cell) :
    writeCell build mem hc c d = (do
      match ← putCell build hc cell d with
      | none => return (mem, false)
      | some cell => return (write mem c (hc.cellBytes cell), true)) := by
  have hself : write mem c (hc.cellBytes cell) = mem := by rw [← hcell, write_slice]
  unfold writeCell putCell
  cases hassert : build.assert (d.type ≠ .unknown) with
  | error e => rfl
  | ok u =>
      by_cases hgroup : d.type = hc.type ∨ d.type.group = hc.type.group
      · simp only [if_pos hgroup]
        cases htype : hc.type with
        | unknown | name =>
            simp only [Column.cellBytes, htype, write_nil] at hself ⊢
            cases build.assert False <;> rfl
        | smallint =>
            simp only [Column.cellBytes, htype]
            exact congrArg (fun mem => Except.ok (mem, true)) (putInt_toInt16 mem c d.integer).symm
        | integer =>
            simp only [Column.cellBytes, htype]
            exact congrArg (fun mem => Except.ok (mem, true)) (putInt_toInt32 mem c d.integer).symm
        | bigint => 
            simp only [Column.cellBytes, htype]
            rfl
        | char =>
            simp only [Column.cellBytes, htype]
            exact congrArg (fun chars => Except.ok (write mem c chars, true))
              (chars_putChar d.character hc.size.toNat).symm
        | varchar =>
            simp only [Column.cellBytes, htype] at hself ⊢
            exact congrArg (fun mem => Except.ok (mem, true)) hself.symm
      · simp only [if_neg hgroup]
        cases build.assert False <;> rfl

theorem inRange_putCell {cell' : Cell}
    (h : putCell build hc cell d = .ok (some cell')) : hc.InRange cell' := by
  obtain ⟨-, -, h⟩ := bind_eq_ok.mp h
  by_cases hgroup : d.type = hc.type ∨ d.type.group = hc.type.group
  · rw [if_pos hgroup] at h
    rw [Column.InRange]
    cases htype : hc.type with
    | unknown | name | bigint | char | varchar => trivial
    | smallint =>
        rw [htype] at h
        cases h
        exact congrArg Int16.toInt64 (Int16.toInt16_toInt64 _)
    | integer =>
        rw [htype] at h
        cases h
        exact congrArg Int32.toInt64 (Int32.toInt32_toInt64 _)
  · rw [if_neg hgroup] at h
    obtain ⟨-, -, h⟩ := bind_eq_ok.mp h
    cases h

theorem overwrite_map_range {n offs : Nat} {bytes : List UInt8} (f : Nat → UInt8) (h : offs + bytes.length ≤ n) :
    overwrite offs bytes ((List.range n).map f)
      = (List.range n).map fun p =>
          if offs ≤ p ∧ p < offs + bytes.length then bytes.getD (p - offs) 0 else f p := by
  apply List.ext_getElem
  · simp only [overwrite, List.length_append, List.length_take, List.length_drop, List.length_map,
      List.length_range]
    omega
  · intro p hp hp'
    rw [List.length_map, List.length_range] at hp'
    simp only [overwrite, List.append_assoc, List.getElem_append, List.length_take, List.length_map,
      List.length_range, List.getElem_take, List.getElem_map, List.getElem_range, List.getElem_drop]
    by_cases hfront : p < offs
    · rw [dif_pos (by omega), if_neg (by omega)]
    rw [dif_neg (by omega)]
    by_cases hin : p < offs + bytes.length
    · rw [dif_pos (by omega), if_pos (by omega), ← List.getD_eq_getElem _ 0]
      congr 1
      omega
    · rw [dif_neg (by omega), if_neg (by omega)]
      congr 1
      omega

end GridPage

/-! ### The bytes of a row -/

@[simp]
theorem length_rowBytes (hgrid : Grid) (row : Row) : (hgrid.rowBytes row).length = hgridGetRowSize hgrid := by
  rw [Grid.rowBytes, List.length_map, List.length_range]

theorem Grid.columnAt_eq_some (h : hgrid.columnAt p = some column) :
    column < hgrid.occupied ∧ (hgrid.columns column).Covers p :=
  ⟨List.mem_range.mp (List.mem_of_find?_eq_some h), by simpa using List.find?_some h⟩

namespace Grid.Laid

variable (hlaid : hgrid.Laid)
include hlaid

theorem columnAt_eq (hcol : column < hgrid.occupied) (hp : (hgrid.columns column).Covers p) :
    hgrid.columnAt p = some column := by
  cases h : hgrid.columnAt p with
  | none => exact absurd hp (by simpa using List.find?_eq_none.mp h column (List.mem_range.mpr hcol))
  | some other =>
      obtain ⟨hother, hat⟩ := columnAt_eq_some h
      by_contra hne
      have hapart := hlaid.disjoint column hcol other hother fun heq => hne (by rw [heq])
      simp only [Column.Covers] at hp hat
      omega

theorem byteAt_cell (hcol : column < hgrid.occupied) (row : Row) {i : Nat} (hi : i < (hgrid.columns column).width) :
    hgrid.byteAt row ((hgrid.columns column).offs.toNat + i)
      = ((hgrid.columns column).cellBytes (row column)).getD i 0 := by
  have hp : (hgrid.columns column).Covers ((hgrid.columns column).offs.toNat + i) :=
    ⟨Nat.le_add_right _ _, Nat.add_lt_add_left hi _⟩
  rw [byteAt, hlaid.columnAt_eq hcol hp]
  simp only [Nat.add_sub_cancel_left]

/-- The bytes of a row at the place of a column are those of its cell. -/
theorem cell_rowBytes (hcol : column < hgrid.occupied) (row : Row) :
    ((hgrid.rowBytes row).drop (hgrid.columns column).offs.toNat).take (hgrid.columns column).width
      = (hgrid.columns column).cellBytes (row column) := by
  have hwithin := hlaid.within column hcol
  apply List.ext_getElem
  · simp only [List.length_take, List.length_drop, length_rowBytes, length_cellBytes]
    omega
  · intro i hi hi'
    have hwidth : i < (hgrid.columns column).width := by rwa [length_cellBytes] at hi'
    rw [List.getElem_take, List.getElem_drop]
    simp only [rowBytes, List.getElem_map, List.getElem_range]
    rw [hlaid.byteAt_cell hcol row hwidth, List.getD_eq_getElem _ _ hi']

/-- Changing a cell changes the bytes at the place of its column. -/
theorem rowBytes_update (hcol : column < hgrid.occupied) (row : Row) (cell : Cell) :
    hgrid.rowBytes (Function.update row column cell)
      = GridPage.overwrite (hgrid.columns column).offs.toNat ((hgrid.columns column).cellBytes cell)
          (hgrid.rowBytes row) := by
  have hwithin := hlaid.within column hcol
  rw [rowBytes, rowBytes, GridPage.overwrite_map_range _ (by rwa [length_cellBytes])]
  apply List.map_congr_left
  intro p _
  rw [length_cellBytes]
  change _ = if (hgrid.columns column).Covers p then _ else _
  by_cases hp : (hgrid.columns column).Covers p
  · rw [if_pos hp, byteAt, hlaid.columnAt_eq hcol hp]
    simp only [Function.update_self]
  · rw [if_neg hp, byteAt, byteAt]
    cases h : hgrid.columnAt p with
    | none => rfl
    | some other =>
        have hne : other ≠ column := fun heq => hp (heq ▸ (columnAt_eq_some h).2)
        simp only [Function.update_of_ne hne]

end Grid.Laid

theorem Grid.rowBytes_zero (hgrid : Grid) : hgrid.rowBytes .zero = List.replicate (hgridGetRowSize hgrid) 0 := by
  rw [List.eq_replicate_iff]
  refine ⟨length_rowBytes hgrid _, fun b hb => ?_⟩
  obtain ⟨p, -, rfl⟩ := List.mem_map.mp hb
  rw [byteAt]
  cases hgrid.columnAt p with
  | none => rfl
  | some i => simp [Row.zero, cellBytes_zero]

end Scroller
