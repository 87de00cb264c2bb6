import Scroller.Proof.GridLayers
import Scroller.Proof.SelectResponse

/-!
# From the page to the client

What a client reads from the cells that it fetches is what was put into the cells of the table: the rows go from
the frames of the page cache over the socket into the receive buffer as they are.
-/

namespace Scroller

namespace ScrcConnection

open ByteMemory Execute GridPage

/-- The places in the header of the columns that `SELECT` sends. -/
def userIndices (header : Grid) : List Nat :=
  (List.range header.occupied).filter fun i => (header.columns i).name.head? ≠ some 42

theorem userColumns_eq (header : Grid) : userColumns header = (userIndices header).map header.columns :=
  List.filter_map

theorem lt_of_userIndices {header : Grid} {n column : Nat} (h : (userIndices header)[n]? = some column) :
    column < header.occupied :=
  List.mem_range.mp (List.mem_filter.mp (List.mem_of_getElem? h)).1

/-- Fetching rows gives one row after the other, then none, and leaves `rest` of the stream. From each cell the
client reads what the cell of the row holds. -/
def FetchesCells (build : Build) (header : Grid) (rest : List UInt8) : List Row → ScrcConnection → Prop
  | [], conn => ∃ conn', conn.scrcFetchRow = .ok (conn', scrcOk, some none) ∧ conn'.view = rest
  | row :: rows, conn =>
      ∃ conn' p sz, conn.scrcFetchRow = .ok (conn', scrcOk, some (some (p, sz)))
        ∧ (∀ n column, (userIndices header)[n]? = some column → ∃ data,
            conn'.scrcFetchCell (some p) n
                = (conn', scrcOk, some ⟨some data, (header.columns column).size.toNat⟩)
              ∧ readCell build conn'.rbuf (header.columns column) data
                = getCell build (header.columns column) (row column))
        ∧ FetchesCells build header rest rows conn'

/-- The bytes of the rows are their cells. -/
theorem Fetches.cells {header : Grid} (build : Build) (hlaid : header.Laid) {rest : List UInt8} {rows : List Row}
    (hrange : ∀ row ∈ rows, ∀ column, (header.columns column).InRange (row column)) {conn : ScrcConnection}
    (h : Fetches (userColumns header) rest (rows.map header.rowBytes) conn) :
    FetchesCells build header rest rows conn := by
  induction rows generalizing conn with
  | nil => exact h
  | cons row rows ih =>
      obtain ⟨conn', p, hfetch, hslice, hcells, hrest⟩ := h
      refine ⟨conn', p, _, hfetch, fun n column hcolumn => ?_, ?_⟩
      · have hcol := lt_of_userIndices hcolumn
        have hwithin := hlaid.within column hcol
        have hsent : (userColumns header)[n]? = some (header.columns column) := by
          rw [userColumns_eq, List.getElem?_map, hcolumn, Option.map_some]
        refine ⟨_, (hcells n _ hsent).1, ?_⟩
        apply readCell_eq_getCell _ (hrange row List.mem_cons_self column)
        rw [← hlaid.cell_rowBytes hcol, ← hslice, length_rowBytes, drop_slice _ _ (by omega),
          take_slice _ _ (by omega)]
      · exact ih (fun r hr => hrange r (List.mem_cons_of_mem _ hr)) hrest

/-- What a `SELECT` sends of the rows in the frames. -/
def sentRows (header : Grid) (mem : Memory) (gPages : Nat) (pagesz : UInt16) (rows : List (Nat × Nat)) :
    List UInt8 :=
  rows.flatMap fun row => cmdBytes scrcCmdRow ++ sizeBytes (hgridGetRowSize header)
    ++ rowAt mem (frame gPages pagesz row.1) row.2

theorem response_congr {rowBytes rowBytes' : Row → List UInt8} {pieces : List Piece}
    (h : ∀ size row, .row size row ∉ pieces) : response rowBytes pieces = response rowBytes' pieces := by
  rw [response, response]
  congr 1
  apply List.flatMap_congr
  intro piece hpiece
  cases piece with
  | row size row => exact absurd hpiece (h size row)
  | status _ | bodyHeader | tabheader | column _ | finish | tabdata => rfl

theorem response_rows (rowBytes : Row → List UInt8) (size : Nat) (rows : List Row) :
    response rowBytes (rows.map (.row size))
      = rows.flatMap fun row => cmdBytes scrcCmdRow ++ sizeBytes size ++ rowBytes row := by
  induction rows with
  | nil => rfl
  | cons row rows ih =>
      rw [List.map_cons, response_cons, ih, List.flatMap_cons]
      simp [Piece.sends]

/-- A client that is answered with columns and rows fetches them. -/
theorem fetches_of_stream {columns : List Column} {rowBytes : Row → List UInt8} {rows : List Row} {size : Nat}
    {rest : List UInt8} (hrows : ∀ r ∈ rows, (rowBytes r).length = size) (hsize : size ≤ bufsz)
    {conn : ScrcConnection} (hhealthy : conn.Healthy) (hrpos : conn.rpos = 0) (hstatus : conn.status = scrcOk)
    (hstream : conn.view = response rowBytes (.bodyHeader :: .tabheader ::
      (columns.map .column ++ .finish :: .tabdata :: (rows.map (.row size) ++ [.finish]))) ++ rest)
    (query : List UInt8) : ∃ conn', conn.scrcQuery (some query) scrcOk = .ok (conn', scrcOk)
      ∧ Fetches columns rest (rows.map rowBytes) conn' := by
  have hagrees : Agrees conn ⟨conn.status, conn.columns, conn.body, conn.view, false⟩ :=
    ⟨hhealthy, rfl, rfl, rfl, rfl⟩
  have hheader : Decoder.header conn.view = (scrcOk, true, response rowBytes (.tabheader ::
      (columns.map .column ++ .finish :: .tabdata :: (rows.map (.row size) ++ [.finish]))) ++ rest) := by
    rw [hstream]
    exact Decoder.header_bodyHeader _
  have hkept : conn.QueryKept (some query) scrcOk := by
    have hplain := @plainHeader_body rowBytes (.tabheader ::
      (columns.map .column ++ .finish :: .tabdata :: (rows.map (.row size) ++ [.finish]))) rest
    rw [← hstream] at hplain
    refine queryKept_of_plain (early_le (by decide)) hhealthy ?_ hplain ?_ _ _
    · rw [hrpos, hstream, response_cons, Decoder.bodyHeader_flatten, List.append_assoc, List.length_append]
      show 0 + (23 + _) ≤ _
      omega
    · intro rest₁ rest₂ hrest₁ hrest₂
      rw [hheader] at hrest₁
      cases hrest₁
      rw [response_cons, Piece.sends, List.flatten_singleton, List.append_assoc, Decoder.cmd_cmdBytes] at hrest₂
      cases hrest₂
      exact Decoder.plainColumns_columns _ _ _
  obtain ⟨conn', hquery, hagrees'⟩ := scrcQuery_decodes hagrees (some query) scrcOk hkept
  rw [query_response columns _ hstatus hstream query] at hquery hagrees'
  exact ⟨conn', hquery, fetches_rows hagrees' rfl rfl hsize hrows rfl⟩

/-- **What was put is what is read.** After every orderly run on the grids of the frames, where a `SELECT` sends rows
in use from frames of one table, in whatever pieces they arrive: the client fetches these rows and reads from each
of its columns what the operations have put into the cell. -/
theorem stored_cells_fetched {headers : Nat → Grid} {header : Grid} (build : Build) (gPages : Nat) {pagesz : UInt16}
    (hlaid : ∀ n, (headers n).Laid) (hpage : sizeofGrid ≤ pagesz.toNat) {ops : List (Nat × CellOp)}
    (hops : Orderly (fun _ => .raw) ops) {mem mem' : Memory} {hist : List ((Nat × CellOp) × CellAnswer)}
    (hexec : Machine.exec (frameStep build headers gPages pagesz) mem ops = .ok (mem', hist)) (grids : Nat → Grid)
    {rows : List (Nat × Nat)} (hrows : ∀ row ∈ rows, headers row.1 = header
      ∧ framesAfter (fun _ => .raw) ops row.1 ≠ .raw ∧ row.2 < occupied mem' (frame gPages pagesz row.1))
    {cfg : Config} {db : Db} {titor : Titor} {opened : List Piece}
    (hopen : Y2.openBody cfg db (some titor) = .ok opened) (hheader : db.pages titor.m.gp.header = header)
    (hsize : hgridGetRowSize header ≤ bufsz) {conn : ScrcConnection} (hrpos : conn.rpos = 0) (hrlen : conn.rlen = 0)
    (hstatus : conn.status = scrcOk) (hsucceeds : ∀ t ∈ conn.sockfd.outcomes, t.Succeeds) (rest : List UInt8)
    (harriving : conn.sockfd.arriving = response (fun _ => []) opened ++ sentRows header mem' gPages pagesz rows
      ++ cmdBytes scrcCmdEnd ++ rest) (query : List UInt8) :
    ∃ grids' conn', Machine.exec (Grid.frameStep build headers pagesz) grids ops = .ok (grids', hist)
      ∧ conn.scrcQuery (some query) scrcOk = .ok (conn', scrcOk)
      ∧ FetchesCells build header rest (rows.map fun row => (grids' row.1).rows row.2) conn' := by
  obtain ⟨grids', hcells, hend⟩ : ∃ grids',
      Machine.exec (Grid.frameStep build headers pagesz) grids ops = .ok (grids', hist)
        ∧ FramesHold headers gPages pagesz mem' grids' (framesAfter (fun _ => .raw) ops) := by
    rcases exec_layers build gPages hlaid hpage hops mem grids with
      ⟨mem₁, grids', hist₁, hbytes, hcells, hend⟩ | ⟨e, hbytes, -⟩
    · rw [hexec] at hbytes
      cases hbytes
      exact ⟨grids', hcells, hend⟩
    · rw [hexec] at hbytes
      cases hbytes
  have hstored : ∀ row ∈ rows, rowAt mem' (frame gPages pagesz row.1) row.2
        = header.rowBytes ((grids' row.1).rows row.2)
      ∧ ∀ column, (header.columns column).InRange ((grids' row.1).rows row.2 column) := by
    rintro row hrow
    obtain ⟨rfl, hused, hlt⟩ := hrows row hrow
    obtain ⟨k, hk, -⟩ := (hend row.1).mirrors hused
    rw [hk.occupied_eq] at hlt
    have hknown := Nat.lt_of_lt_of_le hlt hk.occupied_le
    exact ⟨hk.row_eq _ hknown, hk.inRange _ hknown⟩
  have hsent : sentRows header mem' gPages pagesz rows = response header.rowBytes
      ((rows.map fun row => (grids' row.1).rows row.2).map (.row (hgridGetRowSize header))) := by
    rw [response_rows, List.flatMap_map]
    apply List.flatMap_congr
    intro row hrow
    rw [(hstored row hrow).1]
  have hview : conn.view = conn.sockfd.arriving := by
    rw [view, hrlen, hrpos]
    rfl
  have hopened := openBody_pieces hopen
  rw [hheader] at hopened
  have hrowless : ∀ size row, .row size row ∉ opened := by
    intro size row hmem
    rw [hopened] at hmem
    simp at hmem
  have hopening : response (fun _ => []) opened = response header.rowBytes opened := response_congr hrowless
  have hfinish : response header.rowBytes [.finish] = cmdBytes scrcCmdEnd := by simp [response, Piece.sends]
  have hstream : conn.view = response header.rowBytes (.bodyHeader :: .tabheader ::
      ((userColumns header).map .column ++ .finish :: .tabdata ::
        ((rows.map fun row => (grids' row.1).rows row.2).map (.row (hgridGetRowSize header)) ++ [.finish])))
      ++ rest := by
    rw [hview, harriving, hsent, hopening, ← hfinish, ← response_append, ← response_append, hopened]
    simp only [List.append_assoc, List.cons_append, List.nil_append]
  obtain ⟨conn', hquery, hfetches⟩ := fetches_of_stream (fun r _ => length_rowBytes header r) hsize
    ⟨⟨by omega, by omega⟩, hsucceeds⟩ hrpos hstatus hstream query
  refine ⟨grids', conn', hcells, hquery, ?_⟩
  cases rows with
  | nil => exact hfetches
  | cons row rows =>
      have hheader' : header.Laid := (hrows row List.mem_cons_self).1 ▸ hlaid row.1
      apply hfetches.cells build hheader'
      intro r hr
      obtain ⟨loc, hloc, rfl⟩ := List.mem_map.mp hr
      exact (hstored loc hloc).2

/-! ### One row of one column -/

/-- The header page of a table `(a BIGINT)`. -/
def bigintHeader : Grid := (smallDb 2).pages smallRow.m.gp.header

def bigintOps : List (Nat × CellOp) := [(0, .init .mvcc), (0, .alloc), (0, .put 0 2 (makeBigint 42))]

theorem stored_cells_fetched_small : ∃ mem conn conn' hist row,
    Machine.exec (frameStep .debug (fun _ => bigintHeader) 4096 4096) (fun _ => 7) bigintOps = .ok (mem, hist)
      ∧ ScrcConnection.scrcQuery conn (some [1]) scrcOk = .ok (conn', scrcOk)
      ∧ FetchesCells .debug bigintHeader [1, 2] [row] conn' ∧ row 2 = ⟨42, []⟩ := by
  have hlaid : bigintHeader.Laid := { datasz_lt := by decide, within := by decide, disjoint := by decide }
  have hops : Orderly (fun _ => .raw) bigintOps := by
    simp [Orderly, bigintOps, FrameState.Allows, FrameState.next]
  have hpage : sizeofGrid ≤ (4096 : UInt16).toNat := by decide
  have hopen : Y2.openBody ⟨.debug, 4096⟩ (smallDb 2) (some smallRow) = .ok [.bodyHeader, .tabheader,
      .column ⟨[97], 16, .bigint, 0⟩, .finish, .tabdata] := rfl
  obtain ⟨grids, hist, hcells, hone, hrow⟩ : ∃ grids hist,
      Machine.exec (Grid.frameStep .debug (fun _ => bigintHeader) 4096) (fun _ => bigintHeader) bigintOps
        = .ok (grids, hist) ∧ (grids 0).occupied = 1 ∧ (grids 0).rows 0 2 = ⟨42, []⟩ := ⟨_, _, rfl, rfl, rfl⟩
  rcases exec_layers .debug 4096 (fun _ => hlaid) hpage hops (fun _ => 7) (fun _ => bigintHeader) with
    ⟨mem, grids₁, hist₁, hexec, hcells₁, hend⟩ | ⟨e, -, hcells₁⟩
  · rw [hcells] at hcells₁
    cases hcells₁
    obtain ⟨k, hk, -⟩ := (hend 0).mirrors (by decide)
    have hoccupied : occupied mem (frame 4096 4096 0) = 1 := hk.occupied_eq.trans hone
    have hrows : ∀ row ∈ [((0, 0) : Nat × Nat)], bigintHeader = bigintHeader
        ∧ framesAfter (fun _ => .raw) bigintOps row.1 ≠ .raw ∧ row.2 < occupied mem (frame 4096 4096 row.1) := by
      intro row hmem
      cases List.mem_singleton.mp hmem
      exact ⟨rfl, by decide, by rw [hoccupied]; decide⟩
    have hsucceeds : ∀ t ∈ List.replicate 20 (Transfer.moved 4), t.Succeeds := by
      intro t ht
      rw [(List.mem_replicate.mp ht).2]
      trivial
    obtain ⟨grids₁, conn', hcells₁, hquery, hfetches⟩ := stored_cells_fetched .debug 4096 (fun _ => hlaid) hpage
      hops hexec (fun _ => bigintHeader) hrows hopen rfl (by decide)
      (show (fresh (fun _ => 1) (List.replicate 20 (.moved 4)) _).rpos = 0 from rfl) rfl rfl hsucceeds [1, 2] rfl [1]
    rw [hcells] at hcells₁
    cases hcells₁
    exact ⟨mem, _, conn', hist, _, hexec, hquery, hfetches, hrow⟩
  · rw [hcells] at hcells₁
    cases hcells₁

end ScrcConnection

end Scroller
