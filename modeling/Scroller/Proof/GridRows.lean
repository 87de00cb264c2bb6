import Scroller.GridPage
import Scroller.Lib.Machine
import Scroller.Lib.SlotArray

/-!
# The rows of a grid

A grid that was initialised in a page of at least the size of its header is an array of slots: the rows in
use, and behind them what the rows that were deleted have left.
-/

namespace Scroller

namespace GridPage

open ByteMemory LittleEndian

def rowAddr (mem : Memory) (grid i : Nat) : Nat := datum grid + rowsz mem grid * i

/-- The bytes of a slot. -/
def rowAt (mem : Memory) (grid i : Nat) : List UInt8 :=
  slice mem (rowAddr mem grid i) (rowsz mem grid)

def slots (mem : Memory) (grid : Nat) : SlotArray (List UInt8) where
  rows := (List.range (occupied mem grid)).map (rowAt mem grid)
  spare := (List.range (rown mem grid - occupied mem grid)).map fun i =>
    rowAt mem grid (occupied mem grid + i)

/-- The rows in use. -/
abbrev rows (mem : Memory) (grid : Nat) : List (List UInt8) := (slots mem grid).rows

/-- The slots of a grid lie in its page behind the header. -/
structure Formed (mem : Memory) (grid pagesz rsz : Nat) : Prop where
  small : pagesz < 2 ^ 16
  rowsz_eq : rowsz mem grid = rsz
  pos : 0 < rowsz mem grid
  fits : sizeofGrid + rowsz mem grid * rown mem grid ≤ pagesz
  within : occupied mem grid ≤ rown mem grid

variable {build : Build} {mem mem' : Memory} {grid pagesz rsz : Nat}

@[simp]
theorem length_rowAt (mem : Memory) (grid i : Nat) : (rowAt mem grid i).length = rowsz mem grid :=
  length_slice mem _ _

@[simp]
theorem length_rows (mem : Memory) (grid : Nat) : (rows mem grid).length = occupied mem grid := by
  simp [rows, slots]

theorem getElem_rows {i : Nat} (hi : i < (rows mem grid).length) :
    (rows mem grid)[i] = rowAt mem grid i := by
  simp [rows, slots]

theorem Formed.size_slots (h : Formed mem grid pagesz rsz) : (slots mem grid).size = rown mem grid := by
  have hwithin := h.within
  simp only [SlotArray.size, slots, List.length_map, List.length_range]
  omega

/-! ### Where rows lie -/

theorem rowAddr_add_le {i j : Nat} (mem : Memory) (grid : Nat) (h : i < j) :
    rowAddr mem grid i + rowsz mem grid ≤ rowAddr mem grid j := by
  have hmul := Nat.mul_le_mul_left (rowsz mem grid) (Nat.succ_le_of_lt h)
  rw [Nat.mul_succ] at hmul
  simp only [rowAddr]
  omega

theorem Formed.rowAddr_le (h : Formed mem grid pagesz rsz) {i : Nat} (hi : i < rown mem grid) :
    rowAddr mem grid i + rowsz mem grid ≤ grid + pagesz := by
  have hlast := rowAddr_add_le mem grid hi
  have hfits := h.fits
  simp only [rowAddr, datum] at *
  omega

theorem datum_le_rowAddr (mem : Memory) (grid i : Nat) : datum grid ≤ rowAddr mem grid i :=
  Nat.le_add_right _ _

/-- Where the header and the size of rows are kept, slots are compared at their places. -/
theorem rowAt_congr (hrowsz : rowsz mem' grid = rowsz mem grid) {i j : Nat}
    (h : slice mem' (rowAddr mem grid i) (rowsz mem grid)
      = slice mem (rowAddr mem grid j) (rowsz mem grid)) :
    rowAt mem' grid i = rowAt mem grid j := by
  simpa only [rowAt, rowAddr, hrowsz] using h

/-! ### The header -/

theorem header_write {p : Nat} {cells : List UInt8} (h : datum grid ≤ p) :
    slice (write mem p cells) grid sizeofGrid = slice mem grid sizeofGrid :=
  slice_write_of_disjoint (Or.inl h)

theorem load_header (h : slice mem' grid sizeofGrid = slice mem grid sizeofGrid) {o k : Nat}
    (hok : o + k ≤ sizeofGrid) : load mem' (grid + o) k = load mem (grid + o) k := by
  have htake := congrArg (fun bytes => (bytes.drop o).take k) h
  rw [drop_slice _ _ (by omega), drop_slice _ _ (by omega), take_slice _ _ (by omega),
    take_slice _ _ (by omega)] at htake
  rw [load, load, htake]

theorem rowsz_of_header (h : slice mem' grid sizeofGrid = slice mem grid sizeofGrid) :
    rowsz mem' grid = rowsz mem grid := load_header h (by simp [sizeofGrid])

theorem rown_of_header (h : slice mem' grid sizeofGrid = slice mem grid sizeofGrid) :
    rown mem' grid = rown mem grid := load_header h (by simp [sizeofGrid])

theorem occupied_of_header (h : slice mem' grid sizeofGrid = slice mem grid sizeofGrid) :
    occupied mem' grid = occupied mem grid := load_header h (by simp [sizeofGrid])

theorem Formed.of_header (hf : Formed mem grid pagesz rsz)
    (h : slice mem' grid sizeofGrid = slice mem grid sizeofGrid) : Formed mem' grid pagesz rsz where
  small := hf.small
  rowsz_eq := by rw [rowsz_of_header h, hf.rowsz_eq]
  pos := by rw [rowsz_of_header h]; exact hf.pos
  fits := by rw [rowsz_of_header h, rown_of_header h]; exact hf.fits
  within := by rw [occupied_of_header h, rown_of_header h]; exact hf.within

@[simp]
theorem rowsz_setOccupied (mem : Memory) (grid n : Nat) :
    rowsz (setOccupied mem grid n) grid = rowsz mem grid :=
  load_store_of_disjoint (Or.inl (by omega)) n

@[simp]
theorem rown_setOccupied (mem : Memory) (grid n : Nat) :
    rown (setOccupied mem grid n) grid = rown mem grid :=
  load_store_of_disjoint (Or.inl (by omega)) n

theorem occupied_setOccupied {n : Nat} (h : n < 2 ^ 16) (mem : Memory) (grid : Nat) :
    occupied (setOccupied mem grid n) grid = n := by
  rw [occupied, setOccupied, load_store_self]
  exact Nat.mod_eq_of_lt h

@[simp]
theorem rowAt_setOccupied (mem : Memory) (grid n i : Nat) :
    rowAt (setOccupied mem grid n) grid i = rowAt mem grid i := by
  apply rowAt_congr (rowsz_setOccupied mem grid n)
  apply slice_store_of_disjoint
  simp only [rowAddr, datum, sizeofGrid]
  omega

theorem rown_lt (mem : Memory) (grid : Nat) : rown mem grid < 2 ^ 16 := load_lt mem _ 2

theorem Formed.setOccupied (hf : Formed mem grid pagesz rsz) {n : Nat} (hn : n ≤ rown mem grid) :
    Formed (setOccupied mem grid n) grid pagesz rsz where
  small := hf.small
  rowsz_eq := by rw [rowsz_setOccupied, hf.rowsz_eq]
  pos := by rw [rowsz_setOccupied]; exact hf.pos
  fits := by rw [rowsz_setOccupied, rown_setOccupied]; exact hf.fits
  within := by
    rw [occupied_setOccupied (Nat.lt_of_le_of_lt hn (rown_lt mem grid)), rown_setOccupied]
    exact hn

/-! ### A new grid -/

/-- What `grid_init` leaves: an empty grid of zeros. -/
structure Fresh (mem : Memory) (grid pagesz rsz : Nat) : Prop extends Formed mem grid pagesz rsz where
  empty : occupied mem grid = 0
  rown_eq : rown mem grid = (pagesz - sizeofGrid) / rsz
  zero : ∀ i, i < rown mem grid → rowAt mem grid i = List.replicate rsz 0

theorem init_rowsz_ne_zero {page : Nat} {pagesz rsz : UInt16} {layout : UInt8} {cont : GridContent}
    (h : init build mem page pagesz layout cont rsz = .ok mem') : rsz ≠ 0 := by
  intro hzero
  simp only [init, if_pos hzero] at h
  obtain ⟨-, -, hbad⟩ := bind_eq_ok.mp h
  cases hbad

theorem init_fresh {page : Nat} {pagesz rsz : UInt16} {layout : UInt8} {cont : GridContent}
    (hpage : sizeofGrid ≤ pagesz.toNat)
    (h : init build mem page pagesz layout cont rsz = .ok mem') :
    Fresh mem' page pagesz.toNat rsz.toNat := by
  have hne := init_rowsz_ne_zero h
  have hpos : 0 < rsz.toNat := by
    rw [Nat.pos_iff_ne_zero]
    intro hzero
    exact hne (UInt16.toNat_inj.mp (by simpa using hzero))
  have hlt := pagesz.toNat_lt
  simp only [init, Build.assert_of _ hne, if_neg hne] at h
  injection h with h
  have hrown : (pagesz.toNat + 2 ^ 64 - sizeofGrid) % 2 ^ 64 / rsz.toNat
      = (pagesz.toNat - sizeofGrid) / rsz.toNat := by
    rw [show (pagesz.toNat + 2 ^ 64 - sizeofGrid) % 2 ^ 64 = pagesz.toNat - sizeofGrid by omega]
  have hdiv : (pagesz.toNat - sizeofGrid) / rsz.toNat ≤ pagesz.toNat - sizeofGrid := Nat.div_le_self _ _
  rw [hrown] at h
  have hrowsz' : rowsz mem' page = rsz.toNat := by
    rw [← h, rowsz, load_store_of_disjoint (by omega), load_store_self]
    exact Nat.mod_eq_of_lt rsz.toNat_lt
  have hrown' : rown mem' page = (pagesz.toNat - sizeofGrid) / rsz.toNat := by
    rw [← h, rown, load_store_self]
    exact Nat.mod_eq_of_lt (by simp only [sizeofGrid] at hdiv ⊢; omega)
  -- behind its fields the page holds what `memset` put there
  have hzero : ∀ p n, page + 20 ≤ p → p + n ≤ page + pagesz.toNat →
      slice mem' p n = List.replicate n 0 := by
    intro p n hp hn
    obtain ⟨k, rfl⟩ := Nat.exists_eq_add_of_le (Nat.le_trans (Nat.le_add_right page 20) hp)
    rw [← h]
    rw [slice_store_of_disjoint (by omega), slice_store_of_disjoint (by omega),
      slice_store_of_disjoint (by omega), slice_store_of_disjoint (by omega),
      slice_store_of_disjoint (by omega), slice_store_of_disjoint (by omega),
      slice_write_of_disjoint (by simp only [magic, List.length_cons, List.length_nil]; omega),
      slice_write_inside (by rw [List.length_replicate]; omega), List.drop_replicate,
      List.take_replicate, Nat.min_eq_left (by omega)]
  have hmul : rsz.toNat * ((pagesz.toNat - sizeofGrid) / rsz.toNat) ≤ pagesz.toNat - sizeofGrid :=
    Nat.mul_div_le _ _
  have hempty : occupied mem' page = 0 := by
    simp only [sizeofGrid] at hpage
    rw [occupied, load, hzero (page + 20) 2 (by omega) (by omega)]
    exact ofBytes_replicate_zero 2
  have hformed : Formed mem' page pagesz.toNat rsz.toNat :=
    { small := hlt
      rowsz_eq := hrowsz'
      pos := by rw [hrowsz']; exact hpos
      fits := by rw [hrowsz', hrown']; omega
      within := by rw [hempty]; exact Nat.zero_le _ }
  refine { toFormed := hformed, empty := hempty, rown_eq := hrown', zero := ?_ }
  intro i hi
  have hplace := hformed.rowAddr_le hi
  have hbehind := datum_le_rowAddr mem' page i
  simp only [datum, sizeofGrid] at hbehind
  rw [rowAt, ← hrowsz', hzero _ _ (by omega) hplace]

theorem Fresh.slots_eq (h : Fresh mem grid pagesz rsz) :
    slots mem grid = ⟨[], List.replicate (rown mem grid) (List.replicate rsz 0)⟩ := by
  have hspare : ((List.range (rown mem grid)).map fun i => rowAt mem grid (0 + i))
      = List.replicate (rown mem grid) (List.replicate rsz 0) := by
    rw [List.eq_replicate_iff]
    constructor
    · simp
    · intro row hrow
      obtain ⟨i, hi, rfl⟩ := List.mem_map.mp hrow
      rw [Nat.zero_add]
      exact h.zero i (List.mem_range.mp hi)
  rw [slots, h.empty, Nat.sub_zero, hspare]
  rfl

/-! ### The operations -/

theorem Formed.getRow_of_lt (hf : Formed mem grid pagesz rsz) {n : UInt16}
    (hn : n.toNat < occupied mem grid) :
    getRow build mem grid n = .ok (some (rowAddr mem grid n.toNat)) := by
  have hrown : n.toNat < rown mem grid := Nat.lt_of_lt_of_le hn hf.within
  have hsmall : rowsz mem grid * n.toNat < 2 ^ 31 := by
    have hmul := Nat.mul_le_mul_left (rowsz mem grid) (Nat.le_of_lt hrown)
    have hfits := hf.fits
    have hpage := hf.small
    omega
  simp only [getRow, Build.assert_of _ hrown, if_pos hn, mulInt, if_pos hsmall]
  rfl

/-- `grid_get_row` behind the rows in use: the assertion holds only below the last slot. -/
theorem getRow_of_le {n : UInt16} (hn : occupied mem grid ≤ n.toNat) :
    getRow build mem grid n = do
      build.assert (n.toNat < rown mem grid)
      return none := by
  simp only [getRow, if_neg (Nat.not_lt.mpr hn)]

theorem spare_cons (hroom : occupied mem grid < rown mem grid) :
    (slots mem grid).spare = rowAt mem grid (occupied mem grid)
      :: (List.range (rown mem grid - (occupied mem grid + 1))).map fun i =>
        rowAt mem grid (occupied mem grid + 1 + i) := by
  have hleft : rown mem grid - occupied mem grid = rown mem grid - (occupied mem grid + 1) + 1 := by
    omega
  change (List.range (rown mem grid - occupied mem grid)).map _ = _
  rw [hleft, List.range_succ_eq_map, List.map_cons, List.map_map]
  congr 1
  apply List.map_congr_left
  intro i hi
  simp only [Function.comp_def, Nat.succ_eq_add_one]
  rw [Nat.add_assoc, Nat.add_comm 1 i]

theorem Formed.slots_allocRow (hf : Formed mem grid pagesz rsz) :
    Formed (allocRow mem grid).1 grid pagesz rsz
      ∧ slots (allocRow mem grid).1 grid = (slots mem grid).alloc.1
      ∧ (allocRow mem grid).2 = (slots mem grid).alloc.2 := by
  rw [allocRow]
  by_cases hroom : occupied mem grid < rown mem grid
  · have hcount := occupied_setOccupied
      (Nat.lt_of_le_of_lt (Nat.succ_le_of_lt hroom) (rown_lt mem grid)) mem grid
    have halloc : (slots mem grid).alloc
        = (⟨rows mem grid ++ [rowAt mem grid (occupied mem grid)],
            (List.range (rown mem grid - (occupied mem grid + 1))).map fun i =>
              rowAt mem grid (occupied mem grid + 1 + i)⟩, some (rows mem grid).length) := by
      rw [SlotArray.alloc, spare_cons hroom]
    rw [if_pos hroom, halloc]
    refine ⟨hf.setOccupied hroom, ?_, ?_⟩
    · have hafter : rowAt (GridPage.setOccupied mem grid (occupied mem grid + 1)) grid = rowAt mem grid :=
        funext (rowAt_setOccupied mem grid _)
      simp only [rows, slots, hcount, rown_setOccupied, hafter, Nat.succ_eq_add_one, List.range_succ,
        List.map_append, List.map_singleton]
    · rw [length_rows]
  · have hwithin := hf.within
    have hleft : rown mem grid - occupied mem grid = 0 := by omega
    have halloc : (slots mem grid).alloc = (slots mem grid, none) := by
      simp [slots, hleft, SlotArray.alloc]
    rw [if_neg hroom, halloc]
    exact ⟨hf, rfl, rfl⟩

/-- A row with some of its bytes written over. -/
def overwrite (offs : Nat) (bytes row : List UInt8) : List UInt8 :=
  row.take offs ++ bytes ++ row.drop (offs + bytes.length)

theorem Formed.slots_write (hf : Formed mem grid pagesz rsz) {row offs : Nat} {bytes : List UInt8}
    (hrow : row < occupied mem grid) (hbytes : offs + bytes.length ≤ rowsz mem grid) :
    Formed (write mem (rowAddr mem grid row + offs) bytes) grid pagesz rsz
      ∧ slots (write mem (rowAddr mem grid row + offs) bytes) grid
        = (slots mem grid).update row (overwrite offs bytes) := by
  have hdatum := datum_le_rowAddr mem grid row
  have hheader : slice (write mem (rowAddr mem grid row + offs) bytes) grid sizeofGrid
      = slice mem grid sizeofGrid := header_write (by omega)
  have hother : ∀ i, i ≠ row →
      rowAt (write mem (rowAddr mem grid row + offs) bytes) grid i = rowAt mem grid i := by
    intro i hi
    apply rowAt_congr (rowsz_of_header hheader)
    apply slice_write_of_disjoint
    rcases Nat.lt_or_gt_of_ne hi with hlt | hgt
    · have hplace := rowAddr_add_le mem grid hlt
      omega
    · have hplace := rowAddr_add_le mem grid hgt
      omega
  have hself : rowAt (write mem (rowAddr mem grid row + offs) bytes) grid row
      = overwrite offs bytes (rowAt mem grid row) := by
    have haddr : rowAddr (write mem (rowAddr mem grid row + offs) bytes) grid row
        = rowAddr mem grid row := by
      simp only [rowAddr] at hheader ⊢
      rw [rowsz_of_header hheader]
    rw [rowAt, haddr, rowsz_of_header hheader]
    exact slice_write_around hbytes
  refine ⟨hf.of_header hheader, ?_⟩
  have hspare : ∀ i, rowAt (write mem (rowAddr mem grid row + offs) bytes) grid (occupied mem grid + i)
      = rowAt mem grid (occupied mem grid + i) := fun i => hother _ (by omega)
  simp only [slots, SlotArray.update, rown_of_header hheader, occupied_of_header hheader, hspare]
  congr 1
  apply List.ext_getElem
  · simp
  intro i hi hi'
  rw [List.getElem_modify, List.getElem_map, List.getElem_map, List.getElem_range]
  by_cases heq : row = i
  · subst heq
    rw [if_pos rfl, hself]
  · rw [if_neg heq, hother i (Ne.symm heq)]

/-- The rows behind a deleted row move up, the slot of the last one keeps its bytes. -/
theorem Formed.slots_shift (hf : Formed mem grid pagesz rsz) {row : Nat}
    (hrow : row < occupied mem grid)
    (hheader : slice mem' grid sizeofGrid = slice mem grid sizeofGrid)
    (hrows : ∀ i, i < occupied mem grid - 1 →
      rowAt mem' grid i = rowAt mem grid (if i < row then i else i + 1))
    (hspare : ∀ i, occupied mem grid - 1 ≤ i → rowAt mem' grid i = rowAt mem grid i) :
    Formed (GridPage.setOccupied mem' grid (occupied mem grid - 1)) grid pagesz rsz
      ∧ slots (GridPage.setOccupied mem' grid (occupied mem grid - 1)) grid
        = ((slots mem grid).delete row).1 := by
  have hwithin := hf.within
  have hlt := rown_lt mem grid
  refine ⟨(hf.of_header hheader).setOccupied (by rw [rown_of_header hheader]; omega), ?_⟩
  have hlen : row < (slots mem grid).rows.length := by rwa [length_rows]
  obtain ⟨k, hk⟩ : ∃ k, occupied mem grid = k + 1 := ⟨occupied mem grid - 1, by omega⟩
  rw [SlotArray.delete, if_pos hlen]
  rw [hk, Nat.add_sub_cancel] at hrows hspare ⊢
  have hcount : occupied (GridPage.setOccupied mem' grid k) grid = k :=
    occupied_setOccupied (by omega) mem' grid
  have hshifted : rown (GridPage.setOccupied mem' grid k) grid = rown mem grid := by
    rw [rown_setOccupied, rown_of_header hheader]
  have hafter : ∀ i, rowAt (GridPage.setOccupied mem' grid k) grid i = rowAt mem' grid i :=
    rowAt_setOccupied mem' grid k
  have hback : (rows mem grid).getLast? = some (rowAt mem grid k) := by
    rw [rows, slots, hk, List.range_succ, List.map_append, List.map_singleton, List.getLast?_concat]
  have hspare' : (slots (GridPage.setOccupied mem' grid k) grid).spare
      = rowAt mem grid k :: (slots mem grid).spare := by
    rw [spare_cons (by rw [hcount, hshifted]; omega), hcount, hshifted, hafter, hspare k (Nat.le_refl k)]
    simp only [slots, hk]
    congr 1
    apply List.map_congr_left
    intro i hi
    rw [hafter, hspare _ (by omega)]
  have hrows' : (slots (GridPage.setOccupied mem' grid k) grid).rows
      = (rows mem grid).eraseIdx row := by
    apply List.ext_getElem
    · rw [length_rows, hcount, List.length_eraseIdx, if_pos hlen, length_rows, hk,
        Nat.add_sub_cancel]
    intro i hi hi'
    rw [length_rows, hcount] at hi
    rw [getElem_rows, hafter, hrows i hi, List.getElem_eraseIdx]
    by_cases hir : i < row
    · rw [dif_pos hir, if_pos hir, getElem_rows]
    · rw [dif_neg hir, if_neg hir, getElem_rows]
  rw [hback]
  calc slots (GridPage.setOccupied mem' grid k) grid
      = ⟨(slots (GridPage.setOccupied mem' grid k) grid).rows,
          (slots (GridPage.setOccupied mem' grid k) grid).spare⟩ := rfl
    _ = _ := by rw [hrows', hspare']; rfl

theorem deleteRow_of_le {row : UInt16} (hrow : occupied mem grid ≤ row.toNat) :
    deleteRow build mem grid row = .ok (mem, none) := by
  rw [deleteRow, if_neg (Nat.not_lt.mpr hrow)]
  rfl

theorem toNat_succ {row : UInt16} (hrow : row.toNat < occupied mem grid) :
    (row + 1).toNat = row.toNat + 1 := by
  have hlt : occupied mem grid < 2 ^ 16 := load_lt mem _ 2
  rw [UInt16.toNat_add, UInt16.toNat_one]
  exact Nat.mod_eq_of_lt (by omega)

/-- `grid_get_row(grid, row + 1)` is also called where there is no such row. -/
theorem Formed.getRow_succ (hf : Formed mem grid pagesz rsz) {row : UInt16}
    (hrow : row.toNat < occupied mem grid) (hlast : build = .debug → row.toNat + 1 < rown mem grid) :
    getRow build mem grid (row + 1) = .ok
      (if row.toNat + 1 < occupied mem grid then some (rowAddr mem grid (row.toNat + 1)) else none) := by
  have hsucc := toNat_succ hrow
  by_cases hnext : row.toNat + 1 < occupied mem grid
  · rw [if_pos hnext, hf.getRow_of_lt (by rwa [hsucc]), hsucc]
  · have hassert : build.assert ((row + 1).toNat < rown mem grid) = .ok () :=
      Build.assert_eq_ok.mpr (by rwa [hsucc])
    rw [if_neg hnext, getRow_of_le (by omega), hassert]
    rfl

theorem Formed.deleteRow_eq (hf : Formed mem grid pagesz rsz) {row : UInt16}
    (hrow : row.toNat < occupied mem grid) (hlast : build = .debug → row.toNat + 1 < rown mem grid) :
    ∃ mem', deleteRow build mem grid row = .ok (mem', some (occupied mem grid - 1))
      ∧ Formed mem' grid pagesz rsz ∧ slots mem' grid = ((slots mem grid).delete row.toNat).1 := by
  have hwithin := hf.within
  have hsmall : (occupied mem grid - row.toNat - 1) * rowsz mem grid < 2 ^ 31 := by
    have hmul := Nat.mul_le_mul_right (rowsz mem grid)
      (show occupied mem grid - row.toNat - 1 ≤ rown mem grid by omega)
    have hfits := hf.fits
    have hpage := hf.small
    rw [Nat.mul_comm (rown mem grid)] at hmul
    omega
  have hbody : ∀ mem₁, memmove mem (some (rowAddr mem grid row.toNat))
      (if row.toNat + 1 < occupied mem grid then some (rowAddr mem grid (row.toNat + 1)) else none)
      ((occupied mem grid - row.toNat - 1) * rowsz mem grid) = .ok mem₁ →
      deleteRow build mem grid row = .ok (GridPage.setOccupied mem₁ grid (occupied mem₁ grid - 1),
        some (occupied mem₁ grid - 1)) := by
    intro mem₁ hmove
    simp only [deleteRow, if_pos hrow, hf.getRow_of_lt hrow, hf.getRow_succ hrow hlast, mulInt,
      if_pos hsmall, bind, Except.bind, hmove]
    rfl
  by_cases hnext : row.toNat + 1 < occupied mem grid
  · rw [if_pos hnext] at hbody
    have hne : (occupied mem grid - row.toNat - 1) * rowsz mem grid ≠ 0 :=
      Nat.mul_ne_zero (by omega) (Nat.ne_of_gt hf.pos)
    have hheader : slice (move mem (rowAddr mem grid row.toNat) (rowAddr mem grid (row.toNat + 1))
        ((occupied mem grid - row.toNat - 1) * rowsz mem grid)) grid sizeofGrid
        = slice mem grid sizeofGrid := header_write (datum_le_rowAddr mem grid _)
    have hmoved := hbody _ (by rw [memmove, if_neg hne])
    rw [occupied_of_header hheader] at hmoved
    refine ⟨_, hmoved, ?_⟩
    -- the bytes from the row behind the deleted one up to the last row go one row up
    apply hf.slots_shift hrow hheader
    · intro i hi
      apply rowAt_congr (rowsz_of_header hheader)
      by_cases hir : i < row.toNat
      · rw [if_pos hir]
        exact slice_move_of_disjoint (Or.inl (rowAddr_add_le mem grid hir))
      · obtain ⟨k, rfl⟩ := Nat.exists_eq_add_of_le (Nat.not_lt.mp hir)
        have hdst : rowAddr mem grid (row.toNat + k)
            = rowAddr mem grid row.toNat + rowsz mem grid * k := by
          simp only [rowAddr, Nat.mul_add, Nat.add_assoc]
        have hsrc : rowAddr mem grid (row.toNat + k + 1)
            = rowAddr mem grid (row.toNat + 1) + rowsz mem grid * k := by
          simp only [rowAddr, Nat.mul_add, Nat.mul_one]
          omega
        have hin : rowsz mem grid * k + rowsz mem grid
            ≤ (occupied mem grid - row.toNat - 1) * rowsz mem grid := by
          rw [← Nat.mul_succ, Nat.mul_comm]
          exact Nat.mul_le_mul_right _ (by omega)
        rw [if_neg hir, hdst, hsrc]
        exact slice_move_inside hin
    · intro i hi
      apply rowAt_congr (rowsz_of_header hheader)
      apply slice_move_of_disjoint
      right
      have hend : rowAddr mem grid row.toNat + (occupied mem grid - row.toNat - 1) * rowsz mem grid
          = rowAddr mem grid (occupied mem grid - 1) := by
        rw [rowAddr, rowAddr, Nat.mul_comm _ (rowsz mem grid), Nat.add_assoc, ← Nat.mul_add]
        congr 2
        omega
      rw [hend]
      exact Nat.add_le_add_left (Nat.mul_le_mul_left _ hi) _
  · rw [if_neg hnext] at hbody
    have hzero : (occupied mem grid - row.toNat - 1) * rowsz mem grid = 0 := by
      rw [show occupied mem grid - row.toNat - 1 = 0 by omega, Nat.zero_mul]
    refine ⟨_, hbody mem (if_pos hzero), ?_⟩
    apply hf.slots_shift hrow rfl
    · intro i hi
      rw [if_pos (by omega)]
    · intro i hi
      rfl

/-- In a full grid there is no row behind the last one, and a debug build asserts that there is. -/
theorem Formed.deleteRow_full (hf : Formed mem grid pagesz rsz) {row : UInt16}
    (hrow : row.toNat < occupied mem grid) (hlast : row.toNat + 1 = rown mem grid) :
    deleteRow .debug mem grid row = .error .assertion := by
  have hsucc := toNat_succ hrow
  have hassert : Build.debug.assert ((row + 1).toNat < rown mem grid) = .error .assertion :=
    if_neg (by omega)
  have hget : getRow .debug mem grid (row + 1) = .error .assertion := by
    rw [getRow, hassert]
    rfl
  simp only [deleteRow, if_pos hrow, hf.getRow_of_lt hrow, hget, bind, Except.bind]

end GridPage

end Scroller
