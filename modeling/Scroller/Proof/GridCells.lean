import Scroller.Proof.Calculation
import Scroller.Proof.ColumnLayout
import Scroller.Proof.GridRuns

/-!
# The cells of a grid

A datum that is put goes to the bytes of its cell and nowhere else, and it reads back equal where the column
can hold its value.
-/

namespace Scroller

/-- How many bytes of a row belong to a column: those its cells are written to and read from. -/
def Column.width (hc : Column) : Nat :=
  match hc.type with
  | .unknown | .name => 0
  | .smallint => 2
  | .integer => 4
  | .bigint => 8
  | .char | .varchar => hc.size.toNat

/-- The columns of a header do not overlap and lie within its row size. -/
structure Grid.Laid (hgrid : Grid) : Prop where
  datasz_lt : hgrid.datasz < 2 ^ 16
  within : ∀ column < hgrid.occupied,
    (hgrid.columns column).offs.toNat + (hgrid.columns column).width ≤ hgridGetRowSize hgrid
  disjoint : ∀ column < hgrid.occupied, ∀ other < hgrid.occupied, column ≠ other →
    (hgrid.columns column).offs.toNat + (hgrid.columns column).width ≤ (hgrid.columns other).offs.toNat
      ∨ (hgrid.columns other).offs.toNat + (hgrid.columns other).width
        ≤ (hgrid.columns column).offs.toNat

/-- In a header of a table each character column has a byte as well: in one of none `datum_zeroed` reads the byte
behind the cell. -/
structure Grid.LaidOut (hgrid : Grid) : Prop extends hgrid.Laid where
  characters : ∀ column < hgrid.occupied, (hgrid.columns column).type.group = .character →
    0 < (hgrid.columns column).size

/-- The column can hold the value of a datum: an integer of its range, or a string that is no longer than the
column but for blanks at its end. -/
def Column.Holds (hc : Column) (d : Datum) : Prop :=
  match hc.type with
  | .smallint => -2 ^ 15 ≤ d.integer.toInt ∧ d.integer.toInt < 2 ^ 15
  | .integer => -2 ^ 31 ≤ d.integer.toInt ∧ d.integer.toInt < 2 ^ 31
  | .char => (charToVarchar d.character).length ≤ hc.size.toNat
  | .bigint | .unknown | .name | .varchar => True

/-- A header with a sound layout is laid out for cells of any type that is stored in full. -/
theorem Grid.Sound.laid {hgrid : Grid} (h : hgrid.Sound) (hdatasz : hgrid.datasz < 2 ^ 16)
    (hfull : ∀ column < hgrid.occupied, (hgrid.columns column).type ≠ .varchar) : hgrid.Laid := by
  have hwidth : ∀ column < hgrid.occupied,
      (hgrid.columns column).width = (hgrid.columns column).cellsz := by
    intro column hcol
    have hne := hfull column hcol
    rw [Column.width, Column.cellsz]
    cases htype : (hgrid.columns column).type with
    | unknown | name | smallint | integer | bigint | char => rfl
    | varchar => exact (hne htype).elim
  refine { datasz_lt := hdatasz, within := ?_, disjoint := ?_ }
  · intro column hcol
    rw [hwidth column hcol]
    exact h.within column hcol
  · intro column hcol other hother hne
    rw [hwidth column hcol, hwidth other hother]
    rcases Nat.lt_or_gt_of_ne hne with hlt | hgt
    · exact Or.inl (h.ordered column other hlt hother)
    · exact Or.inr (h.ordered other column hgt hcol)

/-! ### Equal data -/

theorem cmpData_eq_zero_integer {build : Build} {d1 d2 : Datum} (h1 : d1.type.group = .integer)
    (h2 : d2.type.group = .integer) : cmpData build d1 d2 = .ok 0 ↔ d1.integer = d2.integer := by
  have hcomparable : dataComparable d1 d2 = true :=
    comparable_of_arithmetical (dataArithmetical_iff.mpr ⟨h1, h2⟩)
  have hcmp : cmpData build d1 d2 = d1.cmpInteger d2 := by
    rw [cmpData, if_pos hcomparable, h1]
  rw [hcmp, Datum.cmpInteger, toBaseType_integer, toBaseType_integer, ← Int64.toInt_inj]
  by_cases hrange : InRange (d1.integer.toInt - d2.integer.toInt)
  · have hdiff : (Int64.ofInt (d1.integer.toInt - d2.integer.toInt)).toInt
        = d1.integer.toInt - d2.integer.toInt := Int64.toInt_ofInt_of_le hrange.1 hrange.2
    rw [subInt64_of_inRange hrange]
    constructor
    · intro h
      injection h with h
      omega
    · intro h
      exact congrArg Except.ok (by omega)
  · rw [subInt64_of_not_inRange hrange]
    constructor
    · intro h
      cases h
    · intro h
      rw [h, Int.sub_self] at hrange
      exact (hrange (by decide)).elim

theorem cmpData_eq_zero_character {build : Build} {d1 d2 : Datum} (h1 : d1.type.group = .character)
    (h2 : d2.type.group = .character) : cmpData build d1 d2 = .ok 0 ↔ d1.text = d2.text := by
  have hcomparable : dataComparable d1 d2 = true := by
    rw [dataComparable_iff, h1, h2]
    exact ⟨rfl, TypeGroup.noConfusion⟩
  have hcmp : cmpData build d1 d2 = .ok (cmpText d1.text d2.text) := by
    rw [cmpData, if_pos hcomparable, h1, cmpCharacter_eq]
    rfl
  rw [hcmp]
  constructor
  · intro h
    injection h with h
    rcases cmpText_cases d1.text d2.text with ⟨hlt, -⟩ | ⟨-, heq⟩ | ⟨hgt, -⟩
    · omega
    · exact heq
    · omega
  · intro h
    rw [h]
    rcases cmpText_cases d2.text d2.text with ⟨-, hlt⟩ | ⟨hzero, -⟩ | ⟨-, -, hne⟩
    · exact absurd hlt (List.lt_irrefl _)
    · rw [hzero]
    · exact absurd rfl hne

theorem charToVarchar_append_blanks (s : List UInt8) (n : Nat) :
    charToVarchar (s ++ List.replicate n 32) = charToVarchar s := by
  induction n with
  | zero => rw [List.replicate_zero, List.append_nil]
  | succ n ih =>
      rw [List.replicate_succ', ← List.append_assoc, charToVarchar,
        List.rdropWhile_concat_pos _ _ _ (by decide)]
      exact ih

theorem exists_blanks (s : List UInt8) : ∃ n, s = charToVarchar s ++ List.replicate n 32 := by
  refine ⟨(s.rtakeWhile (· = 32)).length, ?_⟩
  have hblanks : s.rtakeWhile (· = 32) = List.replicate (s.rtakeWhile (· = 32)).length 32 := by
    rw [List.eq_replicate_iff]
    refine ⟨rfl, ?_⟩
    intro b hb
    simpa using List.mem_rtakeWhile_imp hb
  rw [← hblanks]
  exact List.rdropWhile_append_rtakeWhile.symm

theorem length_putChar (s : List UInt8) (n : Nat) : (putChar s n).length = n := by
  rw [putChar, List.length_append, List.length_take, List.length_replicate]
  omega

/-- A string that was cut to a column and filled up keeps its text if the column is long enough for it. -/
theorem charToVarchar_putChar (s : List UInt8) (n : Nat) :
    charToVarchar (putChar s n) = charToVarchar s ↔ (charToVarchar s).length ≤ n := by
  rw [putChar, charToVarchar_append_blanks]
  constructor
  · intro h
    have hprefix : (charToVarchar (s.take n)).length ≤ (s.take n).length :=
      (List.rdropWhile_prefix _ _).length_le
    rw [h, List.length_take] at hprefix
    omega
  · intro h
    obtain ⟨m, hm⟩ := exists_blanks s
    rw [hm, List.take_append, List.take_of_length_le h, List.take_replicate,
      charToVarchar_append_blanks, charToVarchar_append_blanks]

namespace GridPage

open ByteMemory LittleEndian

variable {build : Build} {hgrid : Grid} {hc : Column} {mem mem' : Memory} {grid page pagesz rsz c : Nat}
variable {row : UInt16} {column : Nat} {d : Datum} {ok : Bool}

/-! ### One cell -/

/-- `grid_put_datum` writes bytes of the cell only. -/
theorem writeCell_eq_of_outside (h : writeCell build mem hc c d = .ok (mem', ok)) {p : Nat}
    (hp : p < c ∨ c + hc.width ≤ p) : mem' p = mem p := by
  have hwrite : ∀ cells : List UInt8, cells.length = hc.width → write mem c cells p = mem p := by
    intro cells hlen
    rcases hp with hp | hp
    · exact write_of_lt hp
    · exact write_of_le (by rwa [hlen])
  obtain ⟨-, -, h⟩ := bind_eq_ok.mp h
  by_cases hgroup : d.type = hc.type ∨ d.type.group = hc.type.group
  · rw [if_pos hgroup] at h
    cases htype : hc.type with
    | unknown | name =>
        rw [htype] at h
        obtain ⟨-, -, h⟩ := bind_eq_ok.mp h
        cases h
        rfl
    | smallint | integer | bigint =>
        rw [htype] at h
        cases h
        apply hwrite
        rw [length_toBytes, Column.width, htype]
    | char =>
        rw [htype] at h
        cases h
        apply hwrite
        rw [Column.width, htype, length_putChar]
    | varchar =>
        rw [htype] at h
        cases h
        rfl
  · rw [if_neg hgroup] at h
    obtain ⟨-, -, h⟩ := bind_eq_ok.mp h
    cases h
    rfl

theorem group_of_writeCell (h : writeCell build mem hc c d = .ok (mem', true)) :
    d.type.group = hc.type.group := by
  obtain ⟨-, -, h⟩ := bind_eq_ok.mp h
  by_cases hgroup : d.type = hc.type ∨ d.type.group = hc.type.group
  · rcases hgroup with htype | hgroup
    · rw [htype]
    · exact hgroup
  · rw [if_neg hgroup] at h
    obtain ⟨-, -, h⟩ := bind_eq_ok.mp h
    cases h

theorem writeCell_eq (hgroup : d.type.group = hc.type.group) (hknown : d.type ≠ .unknown) :
    writeCell build mem hc c d =
      match hc.type with
      | .unknown | .name => do
          build.assert False
          return (mem, true)
      | .smallint => return (putInt mem c 2 d.integer, true)
      | .integer => return (putInt mem c 4 d.integer, true)
      | .bigint => return (putInt mem c 8 d.integer, true)
      | .char => return (write mem c (putChar d.character hc.size.toNat), true)
      | .varchar => return (mem, true) := by
  rw [writeCell, Build.assert_of _ hknown, if_pos (Or.inr hgroup)]
  rfl

/-- `grid_get_datum` reads bytes of the cell only. -/
theorem readCell_congr (h : slice mem' c hc.width = slice mem c hc.width) :
    readCell build mem' hc c = readCell build mem hc c := by
  rw [Column.width] at h
  cases htype : hc.type with
  | unknown | name => simp only [readCell, htype]
  | smallint | integer | bigint | char | varchar =>
      rw [htype] at h
      simp only [readCell, htype, getSmallint, getInteger, getBigint, load, h]

/-! ### Cells in their page -/

def cellAddr (mem : Memory) (grid : Nat) (row : UInt16) (hc : Column) : Nat :=
  rowAddr mem grid row.toNat + hc.offs.toNat

theorem Formed.cell_eq (hf : Formed mem grid pagesz rsz) (hrow : row.toNat < occupied mem grid)
    (hc : Column) : cell build mem grid row hc = .ok (cellAddr mem grid row hc) := by
  rw [cell, hf.getRow_of_lt hrow]
  rfl

/-- What `grid_put_datum` went through. -/
theorem putDatum_cell (h : putDatum build hgrid mem grid row column d = .ok (mem', ok)) :
    ∃ c, gridGetRow build hgrid column = .ok ()
      ∧ cell build mem grid row (hgrid.columns column) = .ok c
      ∧ build.assert (column < hgrid.occupied) = .ok ()
      ∧ writeCell build mem (hgrid.columns column) c d = .ok (mem', ok) := by
  obtain ⟨_, hheader, h⟩ := bind_eq_ok.mp h
  obtain ⟨c, hcell, h⟩ := bind_eq_ok.mp h
  obtain ⟨_, hcolumn, h⟩ := bind_eq_ok.mp h
  exact ⟨c, hheader, hcell, hcolumn, h⟩

theorem datum_le_cell (h : cell build mem grid row hc = .ok c) : datum grid ≤ c := by
  obtain ⟨r, hrow, h⟩ := bind_eq_ok.mp h
  obtain ⟨_, -, hrow⟩ := bind_eq_ok.mp hrow
  by_cases hlt : row.toNat < occupied mem grid
  · rw [if_pos hlt] at hrow
    obtain ⟨offs, -, hrow⟩ := bind_eq_ok.mp hrow
    cases hrow
    cases h
    rw [Nat.add_assoc]
    exact Nat.le_add_right _ _
  · rw [if_neg hlt] at hrow
    cases hrow
    cases h

theorem cell_of_header (h : slice mem' grid sizeofGrid = slice mem grid sizeofGrid) :
    cell build mem' grid row hc = cell build mem grid row hc := by
  simp only [cell, getRow, rown_of_header h, occupied_of_header h, rowsz_of_header h]

theorem putDatum_header (h : putDatum build hgrid mem grid row column d = .ok (mem', ok)) :
    slice mem' grid sizeofGrid = slice mem grid sizeofGrid := by
  obtain ⟨c, -, hcell, -, hwrite⟩ := putDatum_cell h
  have hdatum := datum_le_cell hcell
  apply slice_congr
  intro i hi
  apply writeCell_eq_of_outside hwrite
  left
  rw [datum] at hdatum
  omega

theorem Formed.putDatum_eq (hf : Formed mem grid pagesz rsz) (hrow : row.toNat < occupied mem grid)
    (h : putDatum build hgrid mem grid row column d = .ok (mem', ok)) :
    writeCell build mem (hgrid.columns column) (cellAddr mem grid row (hgrid.columns column)) d
      = .ok (mem', ok) := by
  obtain ⟨c, -, hcell, -, hwrite⟩ := putDatum_cell h
  rw [hf.cell_eq hrow] at hcell
  cases hcell
  exact hwrite

/-- A datum of the group of its column can be put into every row in use. -/
theorem Formed.putDatum_ok (hf : Formed mem grid pagesz rsz) (hrow : row.toNat < occupied mem grid)
    (hcol : column < hgrid.occupied) (hrown : hgrid.occupied ≤ hgrid.rown)
    (hgroup : d.type.group = (hgrid.columns column).type.group)
    (hknown : (hgrid.columns column).type.group ≠ .unknown) :
    ∃ mem', putDatum build hgrid mem grid row column d = .ok (mem', true) := by
  have hheader : gridGetRow build hgrid column = .ok () := by
    rw [gridGetRow, Build.assert_of _ (Nat.lt_of_lt_of_le hcol hrown), if_pos hcol]
    rfl
  have hd : d.type ≠ .unknown := by
    intro hd
    rw [hd] at hgroup
    exact hknown hgroup.symm
  have hwrite : ∃ mem', writeCell build mem (hgrid.columns column)
      (cellAddr mem grid row (hgrid.columns column)) d = .ok (mem', true) := by
    rw [writeCell_eq hgroup hd]
    cases htype : (hgrid.columns column).type with
    | unknown | name =>
        rw [htype] at hknown
        exact (hknown rfl).elim
    | smallint | integer | bigint | char | varchar => exact ⟨_, rfl⟩
  obtain ⟨mem', hwrite⟩ := hwrite
  refine ⟨mem', ?_⟩
  rw [putDatum, hheader, hf.cell_eq hrow, Build.assert_of _ hcol]
  exact hwrite

theorem Formed.getDatum_eq (hf : Formed mem grid pagesz rsz) (hrow : row.toNat < occupied mem grid) :
    getDatum build hgrid mem grid row column = (do
      gridGetRow build hgrid column
      build.assert (column < hgrid.occupied)
      readCell build mem (hgrid.columns column) (cellAddr mem grid row (hgrid.columns column))) := by
  rw [getDatum, hf.cell_eq hrow]
  rfl

/-- What `grid_put_datum` may change: bytes of its cell, which lies in the page behind the header. -/
structure Confined (build : Build) (hgrid : Grid) (mem mem' : Memory) (page pagesz : Nat) (row : UInt16)
    (column : Nat) : Prop where
  inside : page + sizeofGrid ≤ cellAddr mem page row (hgrid.columns column)
    ∧ cellAddr mem page row (hgrid.columns column) + (hgrid.columns column).width ≤ page + pagesz
  outside : ∀ p, p < cellAddr mem page row (hgrid.columns column)
    ∨ cellAddr mem page row (hgrid.columns column) + (hgrid.columns column).width ≤ p → mem' p = mem p
  header : slice mem' page sizeofGrid = slice mem page sizeofGrid
  others : ∀ row' : UInt16, row'.toNat < occupied mem page → ∀ column' < hgrid.occupied,
    (row', column') ≠ (row, column) →
      getDatum build hgrid mem' page row' column' = getDatum build hgrid mem page row' column'

theorem Formed.cells_disjoint (hf : Formed mem page pagesz (hgridGetRowSize hgrid)) (hlaid : hgrid.Laid)
    {row' : UInt16} {column' : Nat} (hcol : column < hgrid.occupied) (hcol' : column' < hgrid.occupied)
    (hne : (row', column') ≠ (row, column)) :
    cellAddr mem page row' (hgrid.columns column') + (hgrid.columns column').width
        ≤ cellAddr mem page row (hgrid.columns column)
      ∨ cellAddr mem page row (hgrid.columns column) + (hgrid.columns column).width
        ≤ cellAddr mem page row' (hgrid.columns column') := by
  have hwithin := hlaid.within column hcol
  have hwithin' := hlaid.within column' hcol'
  have hrowsz := hf.rowsz_eq
  simp only [cellAddr]
  rcases Nat.lt_trichotomy row'.toNat row.toNat with hlt | heq | hgt
  · have hplace := rowAddr_add_le mem page hlt
    omega
  · have hrow : row' = row := UInt16.toNat_inj.mp heq
    subst hrow
    have hdiff : column ≠ column' := by
      rintro rfl
      exact hne rfl
    have hapart := hlaid.disjoint column hcol column' hcol' hdiff
    omega
  · have hplace := rowAddr_add_le mem page hgt
    omega

theorem Formed.confined (hf : Formed mem page pagesz (hgridGetRowSize hgrid)) (hlaid : hgrid.Laid)
    (hrow : row.toNat < occupied mem page) (hcol : column < hgrid.occupied)
    (h : putDatum build hgrid mem page row column d = .ok (mem', ok)) :
    Confined build hgrid mem mem' page pagesz row column := by
  have houtside := fun p => writeCell_eq_of_outside (hf.putDatum_eq hrow h) (p := p)
  have hheader := putDatum_header h
  refine { inside := ?_, outside := houtside, header := hheader, others := ?_ }
  · have hplace := hf.rowAddr_le (Nat.lt_of_lt_of_le hrow hf.within)
    have hdatum := datum_le_rowAddr mem page row.toNat
    have hwithin := hlaid.within column hcol
    have hrowsz := hf.rowsz_eq
    simp only [cellAddr, datum] at *
    omega
  · intro row' hrow' column' hcol' hne
    have haddr : rowAddr mem' page row'.toNat = rowAddr mem page row'.toNat := by
      rw [rowAddr, rowAddr, rowsz_of_header hheader]
    have hrow'' : row'.toNat < occupied mem' page := by rwa [occupied_of_header hheader]
    have hapart := hf.cells_disjoint hlaid hcol hcol' hne
    rw [(hf.of_header hheader).getDatum_eq hrow'', hf.getDatum_eq hrow', cellAddr, haddr, ← cellAddr]
    congr 1
    funext _
    congr 1
    funext _
    apply readCell_congr
    apply slice_congr
    intro i hi
    apply houtside
    omega

/-- **Cell writes are confined.** -/
theorem putDatum_confined {mem₀ mem₁ : Memory} {pagesz : UInt16} {layout : UInt8} {cont : GridContent}
    {ops : List Op} {hist : List (Op × Option Nat)} (hlaid : hgrid.Laid)
    (hpage : sizeofGrid ≤ pagesz.toNat)
    (hinit : init build mem₀ page pagesz layout cont (hgridGetRowSize hgrid).toUInt16 = .ok mem₁)
    (hops : Counted (capacity pagesz (hgridGetRowSize hgrid).toUInt16)
      (Op.Within (hgridGetRowSize hgrid)) 0 ops)
    (hrun : Machine.exec (step build page) mem₁ ops = .ok (mem, hist))
    (hrow : row.toNat < occupied mem page) (hcol : column < hgrid.occupied)
    (h : putDatum build hgrid mem page row column d = .ok (mem', ok)) :
    Confined build hgrid mem mem' page pagesz.toNat row column := by
  have hfresh := init_fresh hpage hinit
  have hle := hgridGetRowSize_le hlaid.datasz_lt
  have hne := init_rowsz_ne_zero hinit
  have hlt : hgridGetRowSize hgrid < 2 ^ 16 := by
    apply Nat.lt_of_le_of_ne hle
    intro heq
    rw [heq] at hne
    exact hne (by decide)
  have hrsz : (hgridGetRowSize hgrid).toUInt16.toNat = hgridGetRowSize hgrid := by
    rw [Nat.toUInt16, UInt16.toNat_ofNat', Nat.mod_eq_of_lt hlt]
  have hf := hfresh.toFormed
  rw [hrsz] at hf
  rw [show capacity pagesz _ = _ from hfresh.rown_eq.symm, ← hfresh.empty] at hops
  exact (hf.of_exec hops hrun).confined hlaid hrow hcol h

/-! ### Reading back -/

theorem getSmallint_putInt (mem : Memory) (c : Nat) (v : Int64) :
    getSmallint (putInt mem c 2 v) c = v.toInt16.toInt64 := by
  rw [getSmallint, putInt, load_store_self]
  congr 1
  apply Int16.toBitVec_inj.mp
  apply BitVec.eq_of_toNat_eq
  simp [BitVec.signExtend_eq_setWidth_of_le]
  rfl

theorem getInteger_putInt (mem : Memory) (c : Nat) (v : Int64) :
    getInteger (putInt mem c 4 v) c = v.toInt32.toInt64 := by
  rw [getInteger, putInt, load_store_self]
  congr 1
  apply Int32.toBitVec_inj.mp
  apply BitVec.eq_of_toNat_eq
  simp [BitVec.signExtend_eq_setWidth_of_le]
  rfl

theorem getBigint_putInt (mem : Memory) (c : Nat) (v : Int64) :
    getBigint (putInt mem c 8 v) c = v := by
  rw [getBigint, putInt, load_store_self]
  apply Int64.toBitVec_inj.mp
  apply BitVec.eq_of_toNat_eq
  simp

/-- The data that `INSERT` makes of literals. -/
def Literal (d : Datum) : Prop := (∃ v, d = makeBigint v) ∨ ∃ s, d = makeChar s

theorem toInt16_eq_iff (v : Int64) :
    v.toInt16.toInt64 = v ↔ -2 ^ 15 ≤ v.toInt ∧ v.toInt < 2 ^ 15 := by
  have hlow := v.le_toInt
  have hhigh := v.toInt_lt
  rw [← Int64.toInt_inj]
  simp only [Int16.toInt_toInt64, Int64.toInt_toInt16, Int.bmod_def]
  omega

theorem toInt32_eq_iff (v : Int64) :
    v.toInt32.toInt64 = v ↔ -2 ^ 31 ≤ v.toInt ∧ v.toInt < 2 ^ 31 := by
  have hlow := v.le_toInt
  have hhigh := v.toInt_lt
  rw [← Int64.toInt_inj]
  simp only [Int32.toInt_toInt64, Int64.toInt_toInt32, Int.bmod_def]
  omega

theorem readCell_writeCell_integer {v : Int64} (hgroup : hc.type.group = .integer)
    (h : writeCell build mem hc c (makeBigint v) = .ok (mem', true)) :
    (∃ d', readCell build mem' hc c = .ok d' ∧ cmpData build d' (makeBigint v) = .ok 0)
      ↔ hc.Holds (makeBigint v) := by
  have hsame : (makeBigint v).type.group = hc.type.group := hgroup.symm
  rw [writeCell_eq hsame DatumType.noConfusion] at h
  have hequal : ∀ t : DatumType, ∀ w : Int64, t.group = .integer →
      readCell build mem' hc c = .ok ⟨t, w, []⟩ →
      ((∃ d', readCell build mem' hc c = .ok d' ∧ cmpData build d' (makeBigint v) = .ok 0) ↔ w = v) := by
    intro t w ht hread
    constructor
    · rintro ⟨d', hd', hcmp⟩
      rw [hread] at hd'
      cases hd'
      exact (cmpData_eq_zero_integer ht rfl).mp hcmp
    · intro hw
      exact ⟨_, hread, (cmpData_eq_zero_integer ht rfl).mpr hw⟩
  cases htype : hc.type with
  | unknown | name | char | varchar =>
      rw [htype] at hgroup
      cases hgroup
  | smallint =>
      simp only [htype] at h
      cases h
      rw [hequal .smallint v.toInt16.toInt64 rfl, toInt16_eq_iff, Column.Holds, htype]
      · rfl
      · simp only [readCell, htype, makeBigint, getSmallint_putInt]
        rfl
  | integer =>
      simp only [htype] at h
      cases h
      rw [hequal .integer v.toInt32.toInt64 rfl, toInt32_eq_iff, Column.Holds, htype]
      · rfl
      · simp only [readCell, htype, makeBigint, getInteger_putInt]
        rfl
  | bigint =>
      simp only [htype] at h
      cases h
      rw [hequal .bigint v rfl, Column.Holds, htype]
      · exact iff_of_true rfl trivial
      · simp only [readCell, htype, makeBigint, getBigint_putInt]
        rfl

/-- A string literal in a `CHAR` column. -/
theorem readCell_writeCell_character {s : List UInt8} (htype : hc.type = .char)
    (h : writeCell build mem hc c (makeChar s) = .ok (mem', true)) :
    (∃ d', readCell build mem' hc c = .ok d' ∧ cmpData build d' (makeChar s) = .ok 0)
      ↔ hc.Holds (makeChar s) := by
  rw [writeCell_eq (by rw [htype]; rfl) DatumType.noConfusion, htype] at h
  cases h
  have hread : readCell build (write mem c (putChar s hc.size.toNat)) hc c
      = .ok (makeChar (putChar s hc.size.toNat)) := by
    have hslice := slice_write_self mem c (putChar s hc.size.toNat)
    rw [length_putChar] at hslice
    simp only [readCell, htype, hslice]
    rfl
  have hholds : hc.Holds (makeChar s) ↔ (charToVarchar s).length ≤ hc.size.toNat := by
    rw [Column.Holds, htype]
    rfl
  rw [hholds, ← charToVarchar_putChar]
  constructor
  · rintro ⟨d', hd', hcmp⟩
    rw [makeChar, hread] at hd'
    cases hd'
    exact (cmpData_eq_zero_character rfl rfl).mp hcmp
  · intro heq
    exact ⟨_, hread, (cmpData_eq_zero_character rfl rfl).mpr heq⟩

/-- **A literal that was put reads back equal** exactly where the column can hold it. -/
theorem getDatum_equal_iff
    (htype : (hgrid.columns column).type ∈ [DatumType.smallint, .integer, .bigint, .char])
    (hd : Literal d) (h : putDatum build hgrid mem grid row column d = .ok (mem', true)) :
    (∃ d', getDatum build hgrid mem' grid row column = .ok d' ∧ cmpData build d' d = .ok 0)
      ↔ (hgrid.columns column).Holds d := by
  obtain ⟨c, hheader, hcell, hcolumn, hwrite⟩ := putDatum_cell h
  have hget : getDatum build hgrid mem' grid row column
      = readCell build mem' (hgrid.columns column) c := by
    rw [getDatum, hheader, cell_of_header (putDatum_header h), hcell, hcolumn]
    rfl
  have hgroup := group_of_writeCell hwrite
  rw [hget]
  rcases hd with ⟨v, rfl⟩ | ⟨s, rfl⟩
  · exact readCell_writeCell_integer hgroup.symm hwrite
  · apply readCell_writeCell_character _ hwrite
    revert hgroup htype
    cases (hgrid.columns column).type <;> simp [makeChar, DatumType.group]

/-! ### A header with two columns -/

/-- The header of `(a SMALLINT, b CHAR(3))`. -/
def smallHeader : Grid :=
  (addColumns ⟨.pure, .undef, sizeofColumn, 101, 0, 0, fun _ => ⟨[], 0, .unknown, 0⟩, fun _ => .zero⟩
    [⟨[97], .smallint, 0⟩, ⟨[98], .char, 3⟩]).1

theorem exists_small_put (build : Build) (v : Int64) : ∃ mem₁ mem mem' : Memory,
    init build (fun _ => 0) 0 4096 glFixed .pure (hgridGetRowSize smallHeader).toUInt16 = .ok mem₁
      ∧ Machine.exec (step build 0) mem₁ [.alloc] = .ok (mem, [(.alloc, (allocRow mem₁ 0).2)])
      ∧ occupied mem 0 = 1
      ∧ putDatum build smallHeader mem 0 0 0 (makeBigint v) = .ok (mem', true) := by
  obtain ⟨mem₁, hinit⟩ : ∃ mem, init build (fun _ => 0) 0 4096 glFixed .pure
      (hgridGetRowSize smallHeader).toUInt16 = .ok mem := init_ok (by decide)
  have hfresh := init_fresh (by decide) hinit
  have hroom : 0 < rown mem₁ 0 := by
    rw [hfresh.rown_eq]
    decide
  obtain ⟨hf, hone, hexec⟩ := hfresh.allocRow_first hroom
  obtain ⟨mem', hput⟩ := hf.putDatum_ok (show (0 : UInt16).toNat < _ by rw [hone]; decide)
    (show 0 < smallHeader.occupied by decide) (by decide)
    (show (makeBigint v).type.group = _ from rfl) (by decide)
  exact ⟨mem₁, _, mem', hinit, hexec, hone, hput⟩

theorem getDatum_equal_iff_small : ∃ mem mem' d, putDatum .debug smallHeader mem 0 0 0 (makeBigint (-5))
      = .ok (mem', true)
    ∧ getDatum .debug smallHeader mem' 0 0 0 = .ok d ∧ cmpData .debug d (makeBigint (-5)) = .ok 0 := by
  obtain ⟨mem₁, mem, mem', hinit, hexec, hone, hput⟩ := exists_small_put .debug (-5)
  have hholds : (smallHeader.columns 0).Holds (makeBigint (-5)) := ⟨by decide, by decide⟩
  obtain ⟨d, hget, hcmp⟩ := (getDatum_equal_iff (by decide) (Or.inl ⟨-5, rfl⟩) hput).mpr hholds
  exact ⟨mem, mem', d, hput, hget, hcmp⟩

/-- 32768 in a `SMALLINT` column reads back as another value. -/
theorem smallint_cuts : ∃ mem mem', putDatum .debug smallHeader mem 0 0 0 (makeBigint 32768)
      = .ok (mem', true)
    ∧ ¬ ∃ d, getDatum .debug smallHeader mem' 0 0 0 = .ok d
      ∧ cmpData .debug d (makeBigint 32768) = .ok 0 := by
  obtain ⟨mem₁, mem, mem', hinit, hexec, hone, hput⟩ := exists_small_put .debug 32768
  refine ⟨mem, mem', hput, ?_⟩
  obtain ⟨c, hheader, hcell, hcolumn, hwrite⟩ := putDatum_cell hput
  rintro ⟨d, hget, hcmp⟩
  obtain ⟨-, -, hget⟩ := bind_eq_ok.mp hget
  obtain ⟨c', hcell', hget⟩ := bind_eq_ok.mp hget
  obtain ⟨-, -, hget⟩ := bind_eq_ok.mp hget
  rw [cell_of_header (putDatum_header hput), hcell] at hcell'
  cases hcell'
  have hholds := (readCell_writeCell_integer rfl hwrite).mp ⟨d, hget, hcmp⟩
  exact absurd hholds.2 (by decide)

theorem putDatum_confined_small : ∃ mem mem', putDatum .release smallHeader mem 0 0 0 (makeBigint 7)
    = .ok (mem', true) ∧ Confined .release smallHeader mem mem' 0 4096 0 0 := by
  obtain ⟨mem₁, mem, mem', hinit, hexec, hone, hput⟩ := exists_small_put .release 7
  refine ⟨mem, mem', hput, ?_⟩
  have hlaid : smallHeader.Laid := by
    refine { datasz_lt := by decide, within := by decide, disjoint := by decide }
  have hops : Counted (capacity 4096 (hgridGetRowSize smallHeader).toUInt16)
      (Op.Within (hgridGetRowSize smallHeader)) 0 [.alloc] := ⟨trivial, trivial⟩
  exact putDatum_confined hlaid (by decide) hinit hops hexec (by rw [hone]; decide) (by decide) hput

end GridPage

end Scroller
