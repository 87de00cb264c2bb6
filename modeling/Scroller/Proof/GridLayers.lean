import Scroller.CellOps
import Scroller.Proof.RowBytes

/-!
# Data grids on their two levels

The clients of data grids get the same answers and the same faults from the bytes of the frames and from the
rows of cells, as long as no row is allocated in a grid that has lost one: the slot of a deleted row keeps its
bytes. What one frame is used for leaves the others alone.
-/

namespace Scroller

namespace GridPage

open ByteMemory

variable {build : Build} {hgrid grid : Grid} {mem mem' : Memory} {page pagesz k : Nat} {psz : UInt16}

/-- The page has the bytes of the grid in its first `k` slots, the rows in use among them. -/
structure Mirrors (hgrid : Grid) (mem : Memory) (page pagesz : Nat) (grid : Grid) (k : Nat) : Prop
    extends Formed mem page pagesz (hgridGetRowSize hgrid) where
  rown_eq : rown mem page = grid.rown
  occupied_eq : occupied mem page = grid.occupied
  occupied_le : grid.occupied ≤ k
  le_rown : k ≤ grid.rown
  row_eq : ∀ i < k, rowAt mem page i = hgrid.rowBytes (grid.rows i)
  inRange : ∀ i < k, ∀ column, (hgrid.columns column).InRange (grid.rows i column)

theorem lt_of_gridGetRow {n : Nat} {u : Unit} (h : gridGetRow build grid n = .ok u) : n < grid.occupied := by
  obtain ⟨-, -, h⟩ := bind_eq_ok.mp h
  by_contra hn
  rw [if_neg hn] at h
  cases h

/-- The slots of a grid, the spare ones too. -/
theorem getElem?_slots {i : Nat} (hi : i < rown mem page) :
    ((slots mem page).rows ++ (slots mem page).spare)[i]? = some (rowAt mem page i) := by
  have hlen := length_rows mem page
  by_cases hrow : i < occupied mem page
  · rw [List.getElem?_append_left (by rwa [hlen]), List.getElem?_eq_getElem (by rwa [hlen]), getElem_rows]
  · obtain ⟨n, rfl⟩ := Nat.exists_eq_add_of_le (Nat.not_lt.mp hrow)
    rw [List.getElem?_append_right (by rw [hlen]; omega), hlen, Nat.add_sub_cancel_left]
    simp only [slots, List.getElem?_map, List.getElem?_range (show n < rown mem page - occupied mem page by omega),
      Option.map_some]

theorem Formed.rowAt_write {rsz row offs : Nat} (hf : Formed mem page pagesz rsz) {bytes : List UInt8}
    (hrow : row < occupied mem page) (hbytes : offs + bytes.length ≤ rowsz mem page) :
    Formed (ByteMemory.write mem (rowAddr mem page row + offs) bytes) page pagesz rsz
      ∧ rown (ByteMemory.write mem (rowAddr mem page row + offs) bytes) page = rown mem page
      ∧ occupied (ByteMemory.write mem (rowAddr mem page row + offs) bytes) page = occupied mem page
      ∧ ∀ i < rown mem page, rowAt (ByteMemory.write mem (rowAddr mem page row + offs) bytes) page i
        = if row = i then overwrite offs bytes (rowAt mem page i) else rowAt mem page i := by
  obtain ⟨hf', hslots⟩ := hf.slots_write hrow hbytes
  have hheader : slice (ByteMemory.write mem (rowAddr mem page row + offs) bytes) page sizeofGrid
      = slice mem page sizeofGrid := by
    apply header_write
    have hdatum := datum_le_rowAddr mem page row
    omega
  refine ⟨hf', rown_of_header hheader, occupied_of_header hheader, fun i hi => ?_⟩
  have hafter := getElem?_slots (show i < rown _ page by rwa [rown_of_header hheader])
  have hbefore := getElem?_slots hi
  rw [hslots, SlotArray.update] at hafter
  rw [List.getElem?_append] at hafter hbefore
  rw [List.length_modify, List.getElem?_modify] at hafter
  have hlen := length_rows mem page
  apply Option.some.inj
  by_cases hin : i < (slots mem page).rows.length
  · rw [if_pos hin] at hafter hbefore
    rw [← hafter, hbefore]
    by_cases heq : row = i
    · rw [if_pos heq]
      simp [heq]
    · rw [if_neg heq]
      simp [heq]
  · rw [if_neg hin] at hafter hbefore
    rw [← hafter, hbefore, if_neg (by rw [hlen] at hin; omega)]

theorem lt_of_cell {row : UInt16} {hc : Column} {c : Nat} (h : cell build mem page row hc = .ok c) :
    row.toNat < occupied mem page := by
  by_contra hrow
  obtain ⟨r, hget, h⟩ := bind_eq_ok.mp h
  rw [getRow_of_le (Nat.not_lt.mp hrow)] at hget
  obtain ⟨-, -, hget⟩ := bind_eq_ok.mp hget
  cases hget
  cases h

namespace Mirrors

variable (h : Mirrors hgrid mem page pagesz grid k) (hlaid : hgrid.Laid)
include h

/-- A slot is got from the page where it is got from the grid. -/
theorem cell_eq (row : UInt16) (hc : Column) :
    cell build mem page row hc
      = (do gridGetRow build grid row.toNat; return rowAddr mem page row.toNat + hc.offs.toNat) := by
  by_cases hrow : row.toNat < grid.occupied
  · have hrown := Nat.lt_of_lt_of_le hrow (Nat.le_trans h.occupied_le h.le_rown)
    rw [h.toFormed.cell_eq (by rwa [h.occupied_eq]), gridGetRow, Build.assert_of _ hrown, if_pos hrow]
    rfl
  · rw [cell, getRow_of_le (by rw [h.occupied_eq]; omega), gridGetRow, if_neg hrow, h.rown_eq]
    cases build.assert (row.toNat < grid.rown) <;> rfl

include hlaid in
theorem slice_eq {i column : Nat} (hi : i < k) (hcol : column < hgrid.occupied) :
    slice mem (rowAddr mem page i + (hgrid.columns column).offs.toNat) (hgrid.columns column).width
      = (hgrid.columns column).cellBytes (grid.rows i column) := by
  have hwithin := hlaid.within column hcol
  rw [← hlaid.cell_rowBytes hcol, ← h.row_eq i hi, rowAt, h.rowsz_eq, drop_slice mem _ (by omega),
    take_slice mem _ (by omega)]

include hlaid in
theorem getDatum_eq (row : UInt16) (column : Nat) :
    getDatum build hgrid mem page row column = gridGetDatum build hgrid grid row.toNat column := by
  rw [getDatum, gridGetDatum]
  cases hheader : gridGetRow build hgrid column with
  | error e => rfl
  | ok u =>
      have hcol := lt_of_gridGetRow hheader
      rw [h.cell_eq]
      cases hrow : gridGetRow build grid row.toNat with
      | error e => rfl
      | ok u =>
          have hk := Nat.lt_of_lt_of_le (lt_of_gridGetRow hrow) h.occupied_le
          have hread : readCell build mem (hgrid.columns column)
              (rowAddr mem page row.toNat + (hgrid.columns column).offs.toNat)
              = getCell build (hgrid.columns column) (grid.rows row.toNat column) :=
            readCell_eq_getCell (h.slice_eq hlaid hk hcol) (h.inRange _ hk column)
          exact congrArg (fun r => build.assert (column < hgrid.occupied) >>= fun _ => r) hread

include hlaid in
/-- Writing a cell changes the bytes of its row as it changes the cells. -/
theorem write {i column : Nat} (hi : i < grid.occupied) (hcol : column < hgrid.occupied) {cell : Cell}
    (hcell : (hgrid.columns column).InRange cell) :
    Mirrors hgrid
      (ByteMemory.write mem (rowAddr mem page i + (hgrid.columns column).offs.toNat)
        ((hgrid.columns column).cellBytes cell))
      page pagesz
      { grid with rows := Function.update grid.rows i (Function.update (grid.rows i) column cell) } k := by
  have hbytes : (hgrid.columns column).offs.toNat + ((hgrid.columns column).cellBytes cell).length
      ≤ rowsz mem page := by
    rw [length_cellBytes, h.rowsz_eq]
    exact hlaid.within column hcol
  obtain ⟨hf, hrown, hoccupied, hrows⟩ := h.toFormed.rowAt_write (by rwa [h.occupied_eq]) hbytes
  refine ⟨hf, ?_, ?_, h.occupied_le, h.le_rown, ?_, ?_⟩
  · rw [hrown, h.rown_eq]
  · rw [hoccupied, h.occupied_eq]
  · intro j hj
    rw [hrows j (by rw [h.rown_eq]; exact Nat.lt_of_lt_of_le hj h.le_rown), h.row_eq j hj]
    dsimp only
    by_cases heq : i = j
    · subst heq
      rw [if_pos rfl, Function.update_self, hlaid.rowBytes_update hcol]
    · rw [if_neg heq, Function.update_of_ne (Ne.symm heq)]
  · intro j hj other
    dsimp only
    by_cases heq : j = i
    · subst heq
      rw [Function.update_self]
      by_cases hother : other = column
      · subst hother
        rwa [Function.update_self]
      · rw [Function.update_of_ne hother]
        exact h.inRange j hj other
    · rw [Function.update_of_ne heq]
      exact h.inRange j hj other

include hlaid in
/-- `grid_put_datum` writes the bytes of what it writes to the cells. -/
theorem putDatum (row : UInt16) (column : Nat) (d : Datum) :
    (∃ mem' grid' ok, GridPage.putDatum build hgrid mem page row column d = .ok (mem', ok)
        ∧ gridPutDatum build hgrid grid row.toNat column d = .ok (if ok then some grid' else none)
        ∧ (ok = false → grid' = grid) ∧ grid'.rown = grid.rown ∧ Mirrors hgrid mem' page pagesz grid' k)
      ∨ ∃ e, GridPage.putDatum build hgrid mem page row column d = .error e
        ∧ gridPutDatum build hgrid grid row.toNat column d = .error e := by
  rw [GridPage.putDatum, gridPutDatum]
  cases hheader : gridGetRow build hgrid column with
  | error e => exact Or.inr ⟨e, rfl, rfl⟩
  | ok u =>
      have hcol := lt_of_gridGetRow hheader
      rw [h.cell_eq]
      cases hrow : gridGetRow build grid row.toNat with
      | error e => exact Or.inr ⟨e, rfl, rfl⟩
      | ok u =>
          have hlt := lt_of_gridGetRow hrow
          have hk := Nat.lt_of_lt_of_le hlt h.occupied_le
          have hwrite : writeCell build mem (hgrid.columns column)
              (rowAddr mem page row.toNat + (hgrid.columns column).offs.toNat) d = _ :=
            writeCell_eq_putCell (h.slice_eq hlaid hk hcol)
          have hassert : build.assert (column < hgrid.occupied) = .ok () := Build.assert_of _ hcol
          simp only [bind, Except.bind, pure, Except.pure, hassert] at hwrite ⊢
          rw [hwrite]
          cases hput : putCell build (hgrid.columns column) (grid.rows row.toNat column) d with
          | error e => exact Or.inr ⟨e, rfl, rfl⟩
          | ok cell =>
              cases cell with
              | none => exact Or.inl ⟨mem, grid, false, rfl, rfl, fun _ => rfl, rfl, h⟩
              | some cell =>
                  exact Or.inl ⟨_, _, true, rfl, rfl, fun hno => absurd hno (by decide), rfl,
                    h.write hlaid hlt hcol (inRange_putCell hput)⟩

omit h in
/-- A new row is the next slot, with the bytes it has. -/
theorem alloc (h : Mirrors hgrid mem page pagesz grid grid.rown) :
    (allocRow mem page).2 = (gridAllocRow grid).2
      ∧ Mirrors hgrid (allocRow mem page).1 page pagesz (gridAllocRow grid).1 (gridAllocRow grid).1.rown := by
  rw [allocRow, gridAllocRow, h.occupied_eq, h.rown_eq]
  by_cases hroom : grid.occupied < grid.rown
  · rw [if_pos hroom, if_pos hroom]
    refine ⟨rfl, h.toFormed.setOccupied (by rwa [h.rown_eq]), ?_, ?_, hroom, Nat.le_refl _, ?_, h.inRange⟩
    · rw [rown_setOccupied, h.rown_eq]
    · apply occupied_setOccupied
      have hlt := rown_lt mem page
      rw [h.rown_eq] at hlt
      omega
    · intro i hi
      rw [rowAt_setOccupied, h.row_eq i hi]
  · rw [if_neg hroom, if_neg hroom]
    exact ⟨rfl, h⟩

/-- The rows behind a deleted row move up; no slot behind them is known any more. -/
theorem shifted {row : Nat} (hrow : row < grid.occupied) {mem' : Memory}
    (hf : Formed mem' page pagesz (hgridGetRowSize hgrid))
    (hslots : slots mem' page = ((slots mem page).delete row).1) :
    Mirrors hgrid mem' page pagesz (gridDeleteRow grid row) (grid.occupied - 1) := by
  have hlen : row < (slots mem page).rows.length := by rwa [length_rows, h.occupied_eq]
  have hrows : rows mem' page = (rows mem page).eraseIdx row := by
    rw [rows, hslots, SlotArray.delete, if_pos hlen]
  have hsize : (slots mem' page).size = (slots mem page).size := by
    rw [hslots]
    exact SlotArray.step_size (slots mem page) (.delete row)
  have hoccupied : occupied mem' page = grid.occupied - 1 := by
    rw [← length_rows mem' page, hrows, List.length_eraseIdx, if_pos hlen, length_rows, h.occupied_eq]
  have hle := Nat.le_trans h.occupied_le h.le_rown
  refine ⟨hf, ?_, hoccupied, Nat.le_refl _, ?_, ?_, ?_⟩
  · rw [← hf.size_slots, hsize, h.toFormed.size_slots, h.rown_eq]
    rfl
  · exact Nat.le_trans (Nat.sub_le _ _) hle
  · intro i hi
    have hin : i < (rows mem' page).length := by rwa [length_rows, hoccupied]
    have hget := getElem_rows hin
    simp only [hrows, List.getElem_eraseIdx, getElem_rows] at hget
    rw [← hget]
    dsimp only [gridDeleteRow]
    by_cases hlt : i < row
    · rw [dif_pos hlt, if_pos hlt, h.row_eq i (by have := h.occupied_le; omega)]
    · rw [dif_neg hlt, if_neg hlt, h.row_eq (i + 1) (by have := h.occupied_le; omega)]
  · intro i hi column
    have hbefore := h.occupied_le
    dsimp only [gridDeleteRow]
    by_cases hlt : i < row
    · rw [if_pos hlt]
      exact h.inRange i (by omega) column
    · rw [if_neg hlt]
      exact h.inRange (i + 1) (by omega) column

theorem delete (build : Build) (psz : UInt16) (row : UInt16) :
    (∃ mem' grid' answer, GridPage.cellStep build hgrid psz page mem (.delete row) = .ok (mem', answer)
        ∧ Grid.cellStep build hgrid psz grid (.delete row) = .ok (grid', answer)
        ∧ ∃ k', Mirrors hgrid mem' page pagesz grid' k')
      ∨ ∃ e, GridPage.cellStep build hgrid psz page mem (.delete row) = .error e
        ∧ Grid.cellStep build hgrid psz grid (.delete row) = .error e := by
  rw [GridPage.cellStep, Grid.cellStep]
  by_cases hrow : row.toNat < grid.occupied
  · have hrow' : row.toNat < occupied mem page := by rwa [h.occupied_eq]
    have hle := Nat.le_trans h.occupied_le h.le_rown
    rw [if_pos hrow]
    by_cases hlast : build = .debug → row.toNat + 1 < grid.rown
    · obtain ⟨mem', hdelete, hf, hslots⟩ := h.toFormed.deleteRow_eq hrow' (by rwa [h.rown_eq])
      rw [hdelete, Build.assert_eq_ok.mpr hlast, h.occupied_eq]
      exact Or.inl ⟨mem', _, _, rfl, rfl, _, h.shifted hrow hf hslots⟩
    · obtain ⟨rfl, hfull⟩ := Classical.not_imp.mp hlast
      have hassert : Build.debug.assert (row.toNat + 1 < grid.rown) = .error .assertion := if_neg hfull
      rw [h.toFormed.deleteRow_full hrow' (by rw [h.rown_eq]; omega), hassert]
      exact Or.inr ⟨_, rfl, rfl⟩
  · rw [deleteRow_of_le (by rw [h.occupied_eq]; omega), if_neg hrow]
    exact Or.inl ⟨mem, grid, _, rfl, rfl, k, h⟩

end Mirrors

/-- A grid just initialised mirrors one of zero cells. -/
theorem mirrors_init {mem₀ : Memory} {pagesz : UInt16} {layout : UInt8} {cont : GridContent} (hlaid : hgrid.Laid)
    (hpage : sizeofGrid ≤ pagesz.toNat)
    (hinit : init build mem₀ page pagesz layout cont (hgridGetRowSize hgrid).toUInt16 = .ok mem) :
    ∃ grid, dgridInit build pagesz.toNat cont hgrid = .ok grid
      ∧ Mirrors hgrid mem page pagesz.toNat grid grid.rown := by
  have hle := hgridGetRowSize_le hlaid.datasz_lt
  have hne := init_rowsz_ne_zero hinit
  have hlt : hgridGetRowSize hgrid < 2 ^ 16 := by
    apply Nat.lt_of_le_of_ne hle
    intro heq
    rw [heq] at hne
    exact hne (by decide)
  have hrsz : (hgridGetRowSize hgrid).toUInt16.toNat = hgridGetRowSize hgrid := by
    rw [Nat.toUInt16, UInt16.toNat_ofNat', Nat.mod_eq_of_lt hlt]
  have hfresh := init_fresh hpage hinit
  rw [hrsz] at hfresh
  have hpos := hfresh.pos
  rw [hfresh.rowsz_eq] at hpos
  have hsmall := pagesz.toNat_lt
  have hcount : (pagesz.toNat % 2 ^ 16 + 2 ^ 64 - sizeofGrid) % 2 ^ 64 = pagesz.toNat - sizeofGrid := by
    simp only [sizeofGrid] at hpage ⊢
    omega
  have hrown : (pagesz.toNat - sizeofGrid) / hgridGetRowSize hgrid % 2 ^ 16 = rown mem page := by
    rw [← hfresh.rown_eq, Nat.mod_eq_of_lt (rown_lt mem page)]
  obtain ⟨grid, hgrid, hrown', hempty, hzero⟩ : ∃ grid, dgridInit build pagesz.toNat cont hgrid = .ok grid
      ∧ grid.rown = rown mem page ∧ grid.occupied = 0 ∧ grid.rows = fun _ => .zero := by
    simp only [dgridInit, gridInit, Nat.mod_eq_of_lt hlt, hcount]
    rw [Build.assert_of _ (Nat.ne_of_gt hpos), if_neg (Nat.ne_of_gt hpos)]
    exact ⟨_, rfl, hrown, rfl, rfl⟩
  refine ⟨grid, hgrid, hfresh.toFormed, hrown'.symm, ?_, ?_, Nat.le_refl _, ?_, ?_⟩
  · rw [hfresh.empty, hempty]
  · rw [hempty]
    exact Nat.zero_le _
  · intro i hi
    rw [hfresh.zero i (by rwa [← hrown']), hzero, Grid.rowBytes_zero]
  · intro i _ column
    rw [hzero]
    exact inRange_zero _

theorem init_fault {mem₀ : Memory} {layout : UInt8} {cont : GridContent} {e : Fault}
    (hinit : init build mem₀ page psz layout cont (hgridGetRowSize hgrid).toUInt16 = .error e) :
    dgridInit build psz.toNat cont hgrid = .error e := by
  by_cases hzero : (hgridGetRowSize hgrid).toUInt16 = 0
  · have hmod : hgridGetRowSize hgrid % 2 ^ 16 = 0 := by
      rw [← UInt16.toNat_ofNat', ← Nat.toUInt16, hzero]
      rfl
    simp only [init, hzero, if_true] at hinit
    simp only [dgridInit, gridInit, hmod, if_true]
    cases build with
    | debug | release =>
        cases hinit
        rfl
  · simp only [init, Build.assert_of _ hzero, if_neg hzero] at hinit
    cases hinit

/-! ### One frame -/

variable {state : FrameState}

/-- What the state of a frame says of its page. -/
def Holds (hgrid : Grid) (mem : Memory) (page pagesz : Nat) (grid : Grid) : FrameState → Prop
  | .raw => True
  | .clean => Mirrors hgrid mem page pagesz grid grid.rown
  | .used => ∃ k, Mirrors hgrid mem page pagesz grid k

/-- The page mirrors its grid, and its state stays what it is while the grid keeps its slots. -/
theorem Holds.mirrors (h : Holds hgrid mem page pagesz grid state) (hused : state ≠ .raw) :
    ∃ k, Mirrors hgrid mem page pagesz grid k ∧ ∀ mem' grid', Mirrors hgrid mem' page pagesz grid' k →
      grid'.rown = grid.rown → Holds hgrid mem' page pagesz grid' state := by
  cases state with
  | raw => exact absurd rfl hused
  | clean =>
      refine ⟨_, h, fun mem' grid' hnext hrown => ?_⟩
      rw [Holds, hrown]
      exact hnext
  | used =>
      obtain ⟨k, hk⟩ := h
      exact ⟨k, hk, fun mem' grid' hnext _ => ⟨k, hnext⟩⟩

theorem Holds.cellStep (build : Build) (hlaid : hgrid.Laid) (hpage : sizeofGrid ≤ psz.toNat)
    (h : Holds hgrid mem page psz.toNat grid state) {op : CellOp} (hallows : state.Allows op) :
    (∃ mem' grid' answer, GridPage.cellStep build hgrid psz page mem op = .ok (mem', answer)
        ∧ Grid.cellStep build hgrid psz grid op = .ok (grid', answer)
        ∧ Holds hgrid mem' page psz.toNat grid' (state.next op))
      ∨ ∃ e, GridPage.cellStep build hgrid psz page mem op = .error e
        ∧ Grid.cellStep build hgrid psz grid op = .error e := by
  cases op with
  | init cont =>
      rw [GridPage.cellStep, Grid.cellStep]
      cases hinit : init build mem page psz glFixed cont (hgridGetRowSize hgrid).toUInt16 with
      | error e =>
          rw [init_fault hinit]
          exact Or.inr ⟨e, rfl, rfl⟩
      | ok mem' =>
          obtain ⟨grid', hdgrid, hmirrors⟩ := mirrors_init hlaid hpage hinit
          rw [hdgrid]
          exact Or.inl ⟨mem', grid', .done, rfl, rfl, hmirrors⟩
  | alloc =>
      cases state with
      | raw => exact hallows.elim
      | used => exact hallows.elim
      | clean =>
          obtain ⟨hanswer, hnext⟩ := Mirrors.alloc h
          refine Or.inl ⟨_, _, _, rfl, ?_, hnext⟩
          rw [Grid.cellStep, hanswer]
          rfl
  | put row column d =>
      have hused : state ≠ .raw := by
        rintro rfl
        exact hallows
      obtain ⟨k, hk, hkept⟩ := h.mirrors hused
      rw [GridPage.cellStep, Grid.cellStep]
      rcases hk.putDatum hlaid row column d with
        ⟨mem', grid', ok, hbytes, hcells, hsame, hrown, hnext⟩ | ⟨e, hbytes, hcells⟩
      · rw [hbytes, hcells]
        refine Or.inl ⟨mem', grid', .put ok, rfl, ?_, ?_⟩
        · cases ok with
          | false =>
              rw [hsame rfl]
              rfl
          | true => rfl
        · exact hkept mem' grid' hnext hrown
      · rw [hbytes, hcells]
        exact Or.inr ⟨e, rfl, rfl⟩
  | get row column =>
      have hused : state ≠ .raw := by
        rintro rfl
        exact hallows
      obtain ⟨k, hk, -⟩ := h.mirrors hused
      rw [GridPage.cellStep, Grid.cellStep, hk.getDatum_eq hlaid]
      cases gridGetDatum build hgrid grid row.toNat column with
      | error e => exact Or.inr ⟨e, rfl, rfl⟩
      | ok d => exact Or.inl ⟨mem, grid, .datum d, rfl, rfl, h⟩
  | delete row =>
      have hused : state ≠ .raw := by
        rintro rfl
        exact hallows
      obtain ⟨k, hk, -⟩ := h.mirrors hused
      exact hk.delete build psz row

/-! ### The other frames -/

theorem write_outside {cells : List UInt8} {p q : Nat} (hp : p < q ∨ q + cells.length ≤ p) :
    ByteMemory.write mem q cells p = mem p := by
  rcases hp with hp | hp
  · exact write_of_lt hp
  · exact write_of_le hp

theorem store_outside {p q j v : Nat} (hp : p < q ∨ q + j ≤ p) : LittleEndian.store mem q j v p = mem p := by
  apply write_outside
  rwa [LittleEndian.length_toBytes]

theorem init_outside {layout : UInt8} {cont : GridContent} {rsz : UInt16} (hpage : sizeofGrid ≤ psz.toNat)
    (h : init build mem page psz layout cont rsz = .ok mem') {p : Nat} (hp : p < page ∨ page + psz.toNat ≤ p) :
    mem' p = mem p := by
  have hne := init_rowsz_ne_zero h
  simp only [sizeofGrid] at hpage
  simp only [init, Build.assert_of _ hne, if_neg hne] at h
  cases h
  have hmagic : magic.length = 4 := rfl
  rw [store_outside (by omega), store_outside (by omega), store_outside (by omega), store_outside (by omega),
    store_outside (by omega), store_outside (by omega), write_outside (by omega),
    write_outside (by rwa [List.length_replicate])]

theorem eq_of_mulInt {a b c : Nat} (h : mulInt a b = .ok c) : c = a * b := by
  rw [mulInt] at h
  split at h
  · exact (Except.ok.inj h).symm
  · cases h

theorem memmove_outside {dest sz p : Nat} {src : Option Nat} (h : memmove mem (some dest) src sz = .ok mem')
    (hp : p < dest ∨ dest + sz ≤ p) : mem' p = mem p := by
  cases src with
  | none =>
      simp only [memmove] at h
      split at h
      · cases h
        rfl
      · cases h
  | some src =>
      simp only [memmove] at h
      split at h
      · cases h
        rfl
      · cases h
        apply write_outside
        rwa [length_slice]

theorem Formed.setOccupied_outside {rsz n p : Nat} (hf : Formed mem page pagesz rsz)
    (hp : p < page ∨ page + pagesz ≤ p) : GridPage.setOccupied mem page n p = mem p := by
  apply store_outside
  have hfits := hf.fits
  simp only [sizeofGrid] at hfits
  omega

theorem Formed.deleteRow_outside {rsz : Nat} {row : UInt16} {idx : Option Nat} (hf : Formed mem page pagesz rsz)
    (h : deleteRow build mem page row = .ok (mem', idx)) {p : Nat} (hp : p < page ∨ page + pagesz ≤ p) :
    mem' p = mem p := by
  by_cases hrow : row.toNat < occupied mem page
  · have hwithin := hf.within
    rw [deleteRow, if_pos hrow, hf.getRow_of_lt hrow] at h
    obtain ⟨dest, hdest, h⟩ := bind_eq_ok.mp h
    cases hdest
    obtain ⟨src, -, h⟩ := bind_eq_ok.mp h
    obtain ⟨sz, hsz, h⟩ := bind_eq_ok.mp h
    obtain ⟨mem₁, hmove, h⟩ := bind_eq_ok.mp h
    cases h
    have hend : rowAddr mem page row.toNat + sz = rowAddr mem page (occupied mem page - 1) := by
      rw [eq_of_mulInt hsz, rowAddr, rowAddr, Nat.mul_comm _ (rowsz mem page), Nat.add_assoc, ← Nat.mul_add]
      congr 2
      omega
    have hplace := hf.rowAddr_le (show occupied mem page - 1 < rown mem page by omega)
    have hdatum := datum_le_rowAddr mem page row.toNat
    simp only [datum] at hdatum
    have hmoved : mem₁ p = mem p := memmove_outside hmove (by omega)
    rw [← hmoved]
    apply store_outside
    have hfits := hf.fits
    simp only [sizeofGrid] at hfits
    omega
  · rw [deleteRow_of_le (Nat.not_lt.mp hrow)] at h
    cases h
    rfl

/-- An operation leaves everything outside its frame alone. -/
theorem Holds.outside (hlaid : hgrid.Laid) (hpage : sizeofGrid ≤ psz.toNat)
    (h : Holds hgrid mem page psz.toNat grid state) {op : CellOp} (hallows : state.Allows op) {answer : CellAnswer}
    (hstep : GridPage.cellStep build hgrid psz page mem op = .ok (mem', answer)) {p : Nat}
    (hp : p < page ∨ page + psz.toNat ≤ p) : mem' p = mem p := by
  have hformed : (∀ cont, op ≠ .init cont) → Formed mem page psz.toNat (hgridGetRowSize hgrid) := by
    intro hop
    have hused : state ≠ .raw := by
      rintro rfl
      cases op with
      | init cont => exact hop cont rfl
      | alloc | put _ _ _ | get _ _ | delete _ => exact hallows
    obtain ⟨k, hk, -⟩ := h.mirrors hused
    exact hk.toFormed
  cases op with
  | init cont =>
      obtain ⟨mem₁, hinit, hstep⟩ := bind_eq_ok.mp hstep
      cases hstep
      exact init_outside hpage hinit hp
  | alloc =>
      have hf := hformed (by intro cont hop; cases hop)
      cases hstep
      rw [allocRow]
      split
      · exact hf.setOccupied_outside hp
      · rfl
  | put row column d =>
      have hf := hformed (by intro cont hop; cases hop)
      obtain ⟨⟨mem₁, ok⟩, hput, hstep⟩ := bind_eq_ok.mp hstep
      cases hstep
      obtain ⟨c, hheader, hcell, -, -⟩ := putDatum_cell hput
      have hconfined := hf.confined hlaid (lt_of_cell hcell) (lt_of_gridGetRow hheader) hput
      have hinside := hconfined.inside
      exact hconfined.outside p (by omega)
  | get row column =>
      obtain ⟨d, -, hstep⟩ := bind_eq_ok.mp hstep
      cases hstep
      rfl
  | delete row =>
      obtain ⟨⟨mem₁, idx⟩, hdelete, hstep⟩ := bind_eq_ok.mp hstep
      cases hstep
      exact (hformed (by intro cont hop; cases hop)).deleteRow_outside hdelete hp

theorem Mirrors.congr (h : Mirrors hgrid mem page pagesz grid k)
    (hsame : ∀ p, page ≤ p → p < page + pagesz → mem' p = mem p) : Mirrors hgrid mem' page pagesz grid k := by
  have hfits := h.toFormed.fits
  have hheader : slice mem' page sizeofGrid = slice mem page sizeofGrid := by
    apply slice_congr
    intro i hi
    exact hsame _ (Nat.le_add_right _ _) (by omega)
  refine ⟨h.toFormed.of_header hheader, ?_, ?_, h.occupied_le, h.le_rown, ?_, h.inRange⟩
  · rw [rown_of_header hheader, h.rown_eq]
  · rw [occupied_of_header hheader, h.occupied_eq]
  · intro i hi
    rw [← h.row_eq i hi]
    apply rowAt_congr (rowsz_of_header hheader)
    have hplace := h.toFormed.rowAddr_le (show i < rown mem page by
      rw [h.rown_eq]
      exact Nat.lt_of_lt_of_le hi h.le_rown)
    have hdatum := datum_le_rowAddr mem page i
    simp only [datum] at hdatum
    apply slice_congr
    intro j hj
    exact hsame _ (by omega) (by omega)

theorem Holds.congr (h : Holds hgrid mem page pagesz grid state)
    (hsame : ∀ p, page ≤ p → p < page + pagesz → mem' p = mem p) : Holds hgrid mem' page pagesz grid state := by
  cases state with
  | raw => trivial
  | clean => exact Mirrors.congr h hsame
  | used =>
      obtain ⟨k, hk⟩ := h
      exact ⟨k, hk.congr hsame⟩

/-! ### Runs -/

variable {headers grids grids' : Nat → Grid} {states : Nat → FrameState} {gPages : Nat}

/-- What the states of the frames say of their pages. -/
def FramesHold (headers : Nat → Grid) (gPages : Nat) (pagesz : UInt16) (mem : Memory) (grids : Nat → Grid)
    (states : Nat → FrameState) : Prop :=
  ∀ n, Holds (headers n) mem (frame gPages pagesz n) pagesz.toNat (grids n) (states n)

theorem frame_add_le {n m : Nat} (h : n < m) : frame gPages psz n + psz.toNat ≤ frame gPages psz m := by
  have hmul := Nat.mul_le_mul_right psz.toNat (Nat.succ_le_of_lt h)
  rw [Nat.succ_mul] at hmul
  simp only [frame]
  omega

theorem FramesHold.step (build : Build) (hlaid : ∀ n, (headers n).Laid) (hpage : sizeofGrid ≤ psz.toNat)
    (h : FramesHold headers gPages psz mem grids states) {op : Nat × CellOp} (hallows : (states op.1).Allows op.2) :
    (∃ mem' grids' answer, frameStep build headers gPages psz mem op = .ok (mem', answer)
        ∧ Grid.frameStep build headers psz grids op = .ok (grids', answer)
        ∧ FramesHold headers gPages psz mem' grids'
          (Function.update states op.1 ((states op.1).next op.2)))
      ∨ ∃ e, frameStep build headers gPages psz mem op = .error e
        ∧ Grid.frameStep build headers psz grids op = .error e := by
  rw [frameStep, Grid.frameStep]
  rcases (h op.1).cellStep build (hlaid op.1) hpage hallows with
    ⟨mem', grid', answer, hbytes, hcells, hnext⟩ | ⟨e, hbytes, hcells⟩
  · rw [hcells]
    refine Or.inl ⟨mem', _, answer, hbytes, rfl, fun n => ?_⟩
    by_cases heq : n = op.1
    · subst heq
      rw [Function.update_self, Function.update_self]
      exact hnext
    · rw [Function.update_of_ne heq, Function.update_of_ne heq]
      apply (h n).congr
      intro p hlow hhigh
      apply (h op.1).outside (hlaid op.1) hpage hallows hbytes
      rcases Nat.lt_or_gt_of_ne heq with hlt | hgt
      · have hframe : frame gPages psz n + psz.toNat ≤ frame gPages psz op.1 := frame_add_le hlt
        omega
      · have hframe : frame gPages psz op.1 + psz.toNat ≤ frame gPages psz n := frame_add_le hgt
        omega
  · rw [hcells]
    exact Or.inr ⟨e, hbytes, rfl⟩

/-- A run on both levels, with what the frames hold afterwards. -/
theorem exec_layers (build : Build) (gPages : Nat) (hlaid : ∀ n, (headers n).Laid) (hpage : sizeofGrid ≤ psz.toNat)
    {ops : List (Nat × CellOp)} (hops : Orderly (fun _ => .raw) ops) (mem : Memory) (grids : Nat → Grid) :
    (∃ mem' grids' hist, Machine.exec (frameStep build headers gPages psz) mem ops = .ok (mem', hist)
        ∧ Machine.exec (Grid.frameStep build headers psz) grids ops = .ok (grids', hist)
        ∧ FramesHold headers gPages psz mem' grids' (framesAfter (fun _ => .raw) ops))
      ∨ ∃ e, Machine.exec (frameStep build headers gPages psz) mem ops = .error e
        ∧ Machine.exec (Grid.frameStep build headers psz) grids ops = .error e := by
  -- what the frames hold, with the states that the operations still to come find them in
  refine Or.imp_left ?_ (Machine.exec_lockstep (fun mem grids rest => ∃ states, Orderly states rest
      ∧ FramesHold headers gPages psz mem grids states
      ∧ framesAfter states rest = framesAfter (fun _ => .raw) ops) ?_ ⟨_, hops, fun _ => trivial, rfl⟩)
  · rintro ⟨mem', grids', hist, hbytes, hcells, states, -, hend, hafter⟩
    rw [← hafter]
    exact ⟨mem', grids', hist, hbytes, hcells, hend⟩
  · rintro mem grids op rest ⟨states, ⟨hallows, hrest⟩, h, hafter⟩
    rcases h.step build hlaid hpage hallows with ⟨mem', grids', answer, hbytes, hcells, hnext⟩ | hfault
    · exact Or.inl ⟨mem', grids', answer, hbytes, hcells, _, hrest, hnext, hafter⟩
    · exact Or.inr hfault

/-- **The cells are the bytes.** In every run on the grids of the frames that initialises a grid before it is used
and allocates no row in a grid that has lost one: the operations on the bytes and those on the cells give the same
answers or end with the same fault, and afterwards every frame has the bytes of the rows in use. -/
theorem run_layers (build : Build) (gPages : Nat) (hlaid : ∀ n, (headers n).Laid) (hpage : sizeofGrid ≤ psz.toNat)
    {ops : List (Nat × CellOp)} (hops : Orderly (fun _ => .raw) ops) (mem : Memory) (grids : Nat → Grid) :
    (∃ mem' grids' hist, Machine.exec (frameStep build headers gPages psz) mem ops = .ok (mem', hist)
        ∧ Machine.exec (Grid.frameStep build headers psz) grids ops = .ok (grids', hist)
        ∧ ∀ n, framesAfter (fun _ => .raw) ops n ≠ .raw →
          rows mem' (frame gPages psz n)
            = (List.range (grids' n).occupied).map fun i => (headers n).rowBytes ((grids' n).rows i))
      ∨ ∃ e, Machine.exec (frameStep build headers gPages psz) mem ops = .error e
        ∧ Machine.exec (Grid.frameStep build headers psz) grids ops = .error e := by
  refine Or.imp_left ?_ (exec_layers build gPages hlaid hpage hops mem grids)
  rintro ⟨mem', grids', hist, hbytes, hcells, hend⟩
  refine ⟨mem', grids', hist, hbytes, hcells, fun n hn => ?_⟩
  obtain ⟨k, hk, -⟩ := (hend n).mirrors hn
  rw [rows, slots, hk.occupied_eq]
  apply List.map_congr_left
  intro i hi
  exact hk.row_eq i (Nat.lt_of_lt_of_le (List.mem_range.mp hi) hk.occupied_le)

/-! ### Two frames -/

def smallCellOps : List (Nat × CellOp) :=
  [(0, .init .mvcc), (1, .init .pure), (1, .alloc), (0, .alloc), (1, .put 0 0 (makeBigint (-5))),
    (0, .put 0 1 (makeChar [97])), (1, .get 0 0), (0, .get 0 1), (1, .delete 0)]

theorem run_layers_small : ∃ mem hist,
    Machine.exec (frameStep .debug (fun _ => smallHeader) 4096 4096) (fun _ => 7) smallCellOps = .ok (mem, hist)
      ∧ hist.map Prod.snd = [.done, .done, .row (some 0), .row (some 0), .put true, .put true,
        .datum ⟨.smallint, -5, []⟩, .datum ⟨.char, 0, [97, 32, 32]⟩, .row (some 0)] := by
  have hlaid : smallHeader.Laid := { datasz_lt := by decide, within := by decide, disjoint := by decide }
  have hops : Orderly (fun _ => .raw) smallCellOps := by simp [Orderly, smallCellOps, FrameState.Allows,
    FrameState.next, Function.update]
  rcases run_layers .debug 4096 (fun _ => hlaid) (show sizeofGrid ≤ (4096 : UInt16).toNat by decide) hops
      (fun _ => 7) (fun _ => smallHeader) with
    ⟨mem, grids, hist, hbytes, hcells, -⟩ | ⟨e, -, hcells⟩
  · cases hcells
    exact ⟨mem, _, hbytes, rfl⟩
  · cases hcells

end GridPage

end Scroller
