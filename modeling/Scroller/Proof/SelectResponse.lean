import Scroller.Proof.PlainHeaders
import Scroller.Proof.RowCommands
import Scroller.Response

/-!
# The client decodes what `SELECT` sends

The bytes that the actions of `SELECT` hand to `session_send`, received in any pieces from an empty buffer, are
the columns and rows of the table again: the query returns the columns that are not the system's, and the calls
that fetch rows return the rows up to the end.
-/

namespace Scroller

open ByteMemory LittleEndian Execute

theorem Column.length_bytes (c : Column) : c.bytes.length = sizeofColumn := by
  have hname : ((c.name ++ List.replicate namesz 0).take namesz).length = namesz := by
    rw [List.length_take, List.length_append, List.length_replicate]
    omega
  rw [Column.bytes, List.length_append, List.length_append, List.length_append, List.length_append,
    hname, length_toBytes, length_toBytes, length_toBytes, List.length_replicate]
  rfl

theorem columnOffs_bytes (c : Column) : ScrcConnection.columnOffs c.bytes = c.offs.toNat := by
  have hname : ((c.name ++ List.replicate namesz 0).take namesz).length = 16 := by
    rw [List.length_take, List.length_append, List.length_replicate, namesz]
    omega
  have hoffs : (toBytes 8 c.offs.toNat).length = 8 := length_toBytes 8 _
  rw [ScrcConnection.columnOffs, Column.bytes, List.append_assoc, List.append_assoc,
    List.drop_left' hname, List.take_left' hoffs]
  exact ofBytes_toBytes_of_lt c.offs.toNat_lt

theorem columnSize_bytes (c : Column) : ScrcConnection.columnSize c.bytes = c.size.toNat := by
  have hfront : ((c.name ++ List.replicate namesz 0).take namesz ++ toBytes 8 c.offs.toNat
      ++ (toBytes 2 c.type.number ++ List.replicate 6 0)).length = 32 := by
    rw [List.length_append, List.length_append, List.length_append, List.length_take,
      List.length_append, length_toBytes, length_toBytes, List.length_replicate, List.length_replicate,
      namesz]
    omega
  have hsize : (toBytes 8 c.size.toNat).length = 8 := length_toBytes 8 _
  rw [ScrcConnection.columnSize, Column.bytes, List.drop_left' hfront, ← List.append_nil (toBytes 8 _),
    List.take_left' hsize]
  exact ofBytes_toBytes_of_lt c.size.toNat_lt

namespace Execute

theorem response_cons (rowBytes : Row → List UInt8) (p : Piece) (pieces : List Piece) :
    response rowBytes (p :: pieces) = (p.sends rowBytes).flatten ++ response rowBytes pieces := by
  rw [response, List.flatMap_cons, List.flatten_append]
  rfl

theorem response_append (rowBytes : Row → List UInt8) (left right : List Piece) :
    response rowBytes (left ++ right) = response rowBytes left ++ response rowBytes right := by
  rw [response, List.flatMap_append, List.flatten_append]
  rfl

end Execute

/-! ### The parts of a response -/

namespace Decoder

variable {s : List UInt8}

theorem block_append {n : Nat} {bytes : List UInt8} (hlen : bytes.length = n) (hn : n ≤ bufsz) :
    block n (bytes ++ s) = (.ok bytes, s) := by
  have hlong : ¬ (bytes ++ s).length < n := by
    rw [List.length_append]
    omega
  rw [block, if_neg (Nat.not_lt.mpr hn), if_neg hlong, List.take_left' hlen, List.drop_left' hlen]

theorem cmd_cmdBytes (c : UInt32) : cmd (cmdBytes c ++ s) = (.ok c, s) := by
  have hvalue : ofBytes (cmdBytes c) = c.toNat := ofBytes_toBytes_of_lt c.toNat_lt
  have hlen : (cmdBytes c).length = sizeofScrcCmd := length_toBytes _ _
  rw [cmd, block_append hlen (by decide)]
  simp only [hvalue]
  rw [Nat.toUInt32_eq, UInt32.ofNat_toNat]

theorem row_row {size : Nat} {bytes : List UInt8} (hlen : bytes.length = size) (hsize : size ≤ bufsz) :
    row (cmdBytes scrcCmdRow ++ (sizeBytes size ++ (bytes ++ s))) = (.ok bytes, s) := by
  have hfits : size < 256 ^ sizeofSizeT := Nat.lt_of_le_of_lt hsize (by decide)
  have hvalue : ofBytes (sizeBytes size) = size := ofBytes_toBytes_of_lt hfits
  have hrow : (Except.ok scrcCmdRow : Except UInt32 UInt32).toOption.getD 0 = scrcCmdRow := rfl
  have hnotend : ¬ scrcCmdRow = scrcCmdEnd := by decide
  rw [row, cmd_cmdBytes]
  simp only [hrow]
  have hsizeLen : (sizeBytes size).length = sizeofSizeT := length_toBytes _ _
  rw [if_neg hnotend, if_neg (not_not.mpr rfl), block_append hsizeLen (by decide)]
  simp only [hvalue]
  exact block_append hlen hsize

theorem row_end : row (cmdBytes scrcCmdEnd ++ s) = (.error scrcEnd, s) := by
  rw [row, cmd_cmdBytes]
  exact if_pos rfl

variable {rowBytes : Row → List UInt8}

theorem row_column (c : Column) (pieces : List Piece) :
    row (response rowBytes (.column c :: pieces) ++ s)
      = (.ok c.bytes, response rowBytes pieces ++ s) := by
  have hsends : (Piece.sends rowBytes (.column c)).flatten
      = cmdBytes scrcCmdRow ++ (sizeBytes sizeofColumn ++ c.bytes) := by
    rw [Piece.sends, List.flatten_cons, List.flatten_cons, List.flatten_singleton]
  rw [response_cons, hsends, List.append_assoc, List.append_assoc, List.append_assoc]
  exact row_row c.length_bytes (by decide)

theorem row_slot {size : Nat} {r : Row} (hlen : (rowBytes r).length = size) (hsize : size ≤ bufsz)
    (pieces : List Piece) :
    row (response rowBytes (.row size r :: pieces) ++ s)
      = (.ok (rowBytes r), response rowBytes pieces ++ s) := by
  have hsends : (Piece.sends rowBytes (.row size r)).flatten
      = cmdBytes scrcCmdRow ++ (sizeBytes size ++ rowBytes r) := by
    rw [Piece.sends, List.flatten_cons, List.flatten_cons, List.flatten_singleton]
  rw [response_cons, hsends, List.append_assoc, List.append_assoc, List.append_assoc]
  exact row_row hlen hsize

theorem row_finish (pieces : List Piece) :
    row (response rowBytes (.finish :: pieces) ++ s)
      = (.error scrcEnd, response rowBytes pieces ++ s) := by
  rw [response_cons, Piece.sends, List.flatten_singleton, List.append_assoc]
  exact row_end

theorem columnsLoop_columns (columns : List Column) (pieces : List Piece) {fuel : Nat}
    (hfuel : columns.length < fuel) (done : List (List UInt8)) :
    columnsLoop fuel done (response rowBytes (columns.map .column ++ .finish :: pieces) ++ s)
      = (.ok (), done ++ columns.map Column.bytes, response rowBytes pieces ++ s) := by
  induction columns generalizing fuel done with
  | nil =>
      obtain ⟨fuel, rfl⟩ := Nat.exists_eq_succ_of_ne_zero (Nat.ne_zero_of_lt hfuel)
      rw [Nat.succ_eq_add_one, columnsLoop, List.map_nil, List.nil_append, row_finish,
        List.map_nil, List.append_nil]
      rfl
  | cons c columns ih =>
      obtain ⟨fuel, rfl⟩ := Nat.exists_eq_succ_of_ne_zero (Nat.ne_zero_of_lt hfuel)
      rw [Nat.succ_eq_add_one, columnsLoop, List.map_cons, List.cons_append, row_column]
      have htake : c.bytes.take sizeofColumn = c.bytes :=
        List.take_of_length_le (Nat.le_of_eq c.length_bytes)
      simp only [htake]
      rw [ih (Nat.lt_of_succ_lt_succ hfuel), List.append_assoc, List.map_cons]
      rfl

theorem plainColumns_columns (columns : List Column) (pieces : List Piece) (fuel : Nat) :
    ScrcConnection.PlainColumns fuel
      (response rowBytes (columns.map .column ++ .finish :: pieces) ++ s) := by
  induction columns generalizing fuel with
  | nil =>
      cases fuel with
      | zero => exact trivial
      | succ fuel =>
          intro bytes rest hrow
          rw [List.map_nil, List.nil_append, row_finish] at hrow
          cases hrow
  | cons c columns ih =>
      cases fuel with
      | zero => exact trivial
      | succ fuel =>
          intro bytes rest hrow
          rw [List.map_cons, List.cons_append, row_column] at hrow
          cases hrow
          exact ⟨Nat.le_of_eq c.length_bytes.symm, ih fuel⟩

theorem line_status (s : List UInt8) :
    line (ascii "Status: 0\n" ++ s) = (.ok (ascii "Status", some (ascii "0")), s) := rfl

theorem line_body (s : List UInt8) :
    line (ascii "Body: Yes\n" ++ s) = (.ok (ascii "Body", some (ascii "Yes")), s) := rfl

theorem line_end (s : List UInt8) : line (ascii "$$\n" ++ s) = (.ok (ascii "$$", none), s) := rfl

theorem bodyHeader_flatten : (Piece.sends rowBytes .bodyHeader).flatten
    = ascii "Status: 0\n" ++ (ascii "Body: Yes\n" ++ ascii "$$\n") := rfl

theorem header_bodyHeader (pieces : List Piece) :
    header (response rowBytes (.bodyHeader :: pieces) ++ s)
      = (scrcOk, true, response rowBytes pieces ++ s) := by
  have hloop : ∀ n s, headerLoop (n + 3) false
      (ascii "Status: 0\n" ++ (ascii "Body: Yes\n" ++ (ascii "$$\n" ++ s))) = (scrcOk, true, s) :=
    fun n s => rfl
  have hlen : (response rowBytes (.bodyHeader :: pieces) ++ s).length + 1
      = (response rowBytes pieces ++ s).length + 21 + 3 := by
    rw [response_cons, bodyHeader_flatten, List.append_assoc, List.length_append]
    show 23 + _ + 1 = _
    omega
  rw [header, hlen, response_cons, bodyHeader_flatten, List.append_assoc, List.append_assoc,
    List.append_assoc]
  exact hloop _ _

end Decoder

namespace ScrcConnection

/-! ### The round trip -/

/-- The columns of a header page that are not the system's. -/
def userColumns (header : Grid) : List Column :=
  ((List.range header.occupied).map header.columns).filter fun c => c.name.head? ≠ some 42

/-- Fetching rows gives `rows` one after the other, then none, and leaves `rest` of the stream. A row is in the
buffer until the next one is fetched; its cells are where the server stored them. -/
def Fetches (columns : List Column) (rest : List UInt8) : List (List UInt8) → ScrcConnection → Prop
  | [], conn =>
      ∃ conn', conn.scrcFetchRow = .ok (conn', scrcOk, some none) ∧ conn'.view = rest
  | row :: rows, conn =>
      ∃ conn' p, conn.scrcFetchRow = .ok (conn', scrcOk, some (some (p, row.length)))
        ∧ slice conn'.rbuf p row.length = row
        ∧ (∀ n c, columns[n]? = some c →
            conn'.scrcFetchCell (some p) n
                = (conn', scrcOk, some ⟨some (p + c.offs.toNat), c.size.toNat⟩)
              ∧ slice conn'.rbuf (p + c.offs.toNat) (c.stored row).length = c.stored row)
        ∧ Fetches columns rest rows conn'

theorem plainHeader_body {rowBytes : Row → List UInt8} {pieces : List Piece} {s : List UInt8} :
    PlainHeader (23 + (response rowBytes pieces ++ s).length) 20
      ((response rowBytes (.bodyHeader :: pieces) ++ s).length + 1) false
      (response rowBytes (.bodyHeader :: pieces) ++ s) := by
  have hlen : (response rowBytes (.bodyHeader :: pieces) ++ s).length + 1
      = (response rowBytes pieces ++ s).length + 21 + 1 + 1 + 1 := by
    rw [response_cons, Decoder.bodyHeader_flatten, List.append_assoc, List.length_append]
    show 23 + _ + 1 = _
    omega
  rw [hlen, response_cons, Decoder.bodyHeader_flatten, List.append_assoc, List.append_assoc,
    List.append_assoc]
  generalize response rowBytes pieces ++ s = rest
  have hread : ∀ (front : List UInt8), 3 ≤ front.length →
      23 + rest.length ≤ 20 + (front ++ rest).length := by
    intro front hfront
    rw [List.length_append]
    omega
  refine PlainHeader.line (by intro b hb; cases hb; decide) ?_ (Decoder.line_status _) rfl ?_
  · exact hread (ascii "Status: 0\n" ++ (ascii "Body: Yes\n" ++ ascii "$$\n")) (by decide)
  · intro body hbody
    cases hbody
    refine PlainHeader.line (by intro b hb; cases hb; decide) ?_ (Decoder.line_body _) rfl ?_
    · exact hread (ascii "Body: Yes\n" ++ ascii "$$\n") (by decide)
    · intro body hbody
      cases hbody
      refine PlainHeader.line (by intro b hb; cases hb; decide) ?_ (Decoder.line_end _) rfl ?_
      · exact hread (ascii "$$\n") (by decide)
      · intro body hbody
        cases hbody

theorem length_le_response {rowBytes : Row → List UInt8} (columns : List Column) (pieces : List Piece) :
    columns.length ≤ (response rowBytes (columns.map .column ++ pieces)).length := by
  induction columns with
  | nil => exact Nat.zero_le _
  | cons c columns ih =>
      have hsends : (Piece.sends rowBytes (.column c)).flatten.length
          = sizeofScrcCmd + (sizeofSizeT + c.bytes.length) := by
        rw [Piece.sends, List.flatten_cons, List.flatten_cons, List.flatten_singleton,
          List.length_append, List.length_append]
        rfl
      rw [List.map_cons, List.cons_append, response_cons, List.length_append, hsends,
        List.length_cons, sizeofScrcCmd]
      omega

theorem query_response {rowBytes : Row → List UInt8} (columns : List Column) (pieces : List Piece)
    {s : List UInt8} {d : Decoder} (hstatus : d.status = scrcOk)
    (hstream : d.stream = response rowBytes (.bodyHeader :: .tabheader ::
      (columns.map .column ++ .finish :: .tabdata :: pieces)) ++ s) (query : List UInt8) :
    d.query (some query) scrcOk
      = ({ d with
            status := scrcOk, columns := columns.map Column.bytes, body := true
            stream := response rowBytes pieces ++ s }, scrcOk) := by
  have hsent : ¬ (if query = [] then scrcOk else scrcOk) ≠ scrcOk := by
    rw [ite_self]
    exact not_not.mpr rfl
  have htab : ∀ s, Decoder.cmd (response rowBytes (.tabheader ::
      (columns.map .column ++ .finish :: .tabdata :: pieces)) ++ s) = (.ok scrcCmdTabheader,
        response rowBytes (columns.map .column ++ .finish :: .tabdata :: pieces) ++ s) := by
    intro s
    rw [response_cons, Piece.sends, List.flatten_singleton, List.append_assoc]
    exact Decoder.cmd_cmdBytes _
  have hdata : ∀ s, Decoder.cmd (response rowBytes (.tabdata :: pieces) ++ s)
      = (.ok scrcCmdTabdata, response rowBytes pieces ++ s) := by
    intro s
    rw [response_cons, Piece.sends, List.flatten_singleton, List.append_assoc]
    exact Decoder.cmd_cmdBytes _
  have hfuel : columns.length < (response rowBytes (columns.map .column ++ .finish :: .tabdata :: pieces)
      ++ s).length + 1 := by
    rw [List.length_append]
    have hcolumns := @length_le_response rowBytes columns (.finish :: .tabdata :: pieces)
    omega
  have hok : ¬ scrcOk ≠ scrcOk := not_not.mpr rfl
  have htabheader : ¬ scrcCmdTabheader ≠ scrcCmdTabheader := not_not.mpr rfl
  have htabdata : ¬ scrcCmdTabdata ≠ scrcCmdTabdata := not_not.mpr rfl
  rw [Decoder.query, if_neg (not_not.mpr hstatus)]
  simp only [hsent, if_false, hstream, Decoder.header_bodyHeader, hok]
  rw [if_neg Bool.true_eq_false_eq_False, Decoder.table]
  simp only [htab, htabheader, if_false]
  rw [Decoder.columnsLoop_columns columns _ hfuel]
  simp only [hdata, htabdata, if_false]
  rfl

/-- A row in the buffer has the bytes that were stored for a column where the column lies in the row. -/
theorem slice_stored {rbuf : Nat → UInt8} {p : Nat} {row : List UInt8}
    (hrow : slice rbuf p row.length = row) (c : Column) :
    slice rbuf (p + c.offs.toNat) (c.stored row).length = c.stored row := by
  apply List.ext_getElem (length_slice _ _ _)
  intro i hi hi'
  have hlen : c.offs.toNat + i < row.length := by
    rw [Column.stored, List.length_take, List.length_drop] at hi'
    omega
  have hbyte : (c.stored row)[i] = row[c.offs.toNat + i] := by
    simp only [Column.stored, List.getElem_take, List.getElem_drop]
  have hbound : c.offs.toNat + i < (slice rbuf p row.length).length := by rwa [length_slice]
  have hslice : (slice rbuf p row.length)[c.offs.toNat + i] = rbuf (p + (c.offs.toNat + i)) :=
    getElem_slice _
  rw [getElem_slice, hbyte, Nat.add_assoc, ← hslice]
  congr 1

variable {rowBytes : Row → List UInt8} {columns : List Column} {size : Nat} {rest : List UInt8}

theorem fetchCell_column {conn : ScrcConnection} {p n : Nat} {c : Column}
    (hstatus : conn.status = scrcOk) (hcolumns : conn.columns = columns.map Column.bytes)
    (hc : columns[n]? = some c) :
    conn.scrcFetchCell (some p) n
      = (conn, scrcOk, some ⟨some (p + c.offs.toNat), c.size.toNat⟩) := by
  have hbytes : conn.columns[n]? = some c.bytes := by
    rw [hcolumns, List.getElem?_map, hc]
    rfl
  rw [scrcFetchCell]
  simp only [hbytes, columnOffs_bytes, columnSize_bytes, ← hstatus]

theorem fetches_rows {conn : ScrcConnection} {d : Decoder} (h : Agrees conn d) (hbody : d.body = true)
    (hcolumns : d.columns = columns.map Column.bytes) (hsize : size ≤ bufsz) {rows : List Row}
    (hrows : ∀ r ∈ rows, (rowBytes r).length = size)
    (hstream : d.stream = response rowBytes (rows.map (.row size) ++ [.finish]) ++ rest) :
    Fetches columns rest (rows.map rowBytes) conn := by
  have hsome : ¬ d.body = false := by
    rw [hbody]
    exact Bool.true_eq_false_eq_False
  obtain ⟨conn', fetched, hfetch, hagrees, hbytes, -⟩ := scrcFetchRow_decodes h
  induction rows generalizing conn conn' d fetched with
  | nil =>
      have hdecoded : d.fetchRow
          = ({ d with status := scrcOk, stream := rest, fetched := false }, scrcOk, some none) := by
        rw [Decoder.fetchRow, if_neg hsome, hstream, List.map_nil, List.nil_append, Decoder.row_finish]
        rfl
      rw [hdecoded] at hfetch hagrees hbytes
      obtain _ | _ | row := fetched
      · cases hbytes
      · exact ⟨conn', hfetch, hagrees.view⟩
      · cases hbytes
  | cons r rows ih =>
      have hlen : (rowBytes r).length = size := hrows r List.mem_cons_self
      have hdecoded : d.fetchRow = ({ d with
            status := scrcOk, fetched := true
            stream := response rowBytes (rows.map (.row size) ++ [.finish]) ++ rest },
          scrcOk, some (some (rowBytes r))) := by
        rw [Decoder.fetchRow, if_neg hsome, hstream, List.map_cons, List.cons_append,
          Decoder.row_slot hlen hsize]
      rw [hdecoded] at hfetch hagrees hbytes
      obtain _ | _ | ⟨p, n⟩ := fetched
      · cases hbytes
      · cases hbytes
      · have hslice : slice conn'.rbuf p n = rowBytes r := Option.some.inj (Option.some.inj hbytes)
        have hn : n = (rowBytes r).length := by rw [← hslice, length_slice]
        rw [hn] at hfetch hslice
        refine ⟨conn', p, hfetch, hslice, fun n c hc => ?_, ?_⟩
        · exact ⟨fetchCell_column hagrees.status (hagrees.columns.trans hcolumns) hc,
            slice_stored hslice c⟩
        · obtain ⟨conn₂, fetched₂, hfetch₂, hagrees₂, hbytes₂, -⟩ := scrcFetchRow_decodes hagrees
          exact ih hagrees hbody hcolumns (fun r hr => hrows r (List.mem_cons_of_mem _ hr)) rfl hsome
            conn₂ fetched₂ hfetch₂ hagrees₂ hbytes₂

/-- What `SELECT` sends before its rows. -/
theorem openBody_pieces {cfg : Config} {db : Db} {row : Titor} {opened : List Piece}
    (hopen : Y2.openBody cfg db (some row) = .ok opened) :
    opened = .bodyHeader :: .tabheader ::
      ((userColumns (db.pages row.m.gp.header)).map .column ++ [.finish, .tabdata]) := by
  by_cases hfits : cfg.build = .debug →
      (db.pages row.m.gp.header).occupied < (db.pages row.m.gp.header).rown
  · unfold Y2.openBody at hopen
    dsimp only at hopen
    rw [RowCmd.columnPieces_eq hfits (Nat.zero_add _) (Nat.lt_succ_self _)] at hopen
    cases hopen
    rw [RowCmd.sentColumns, userColumns, List.range_eq_range', List.append_assoc]
    rfl
  · obtain ⟨hdebug, hfull⟩ := Classical.not_imp.mp hfits
    unfold Y2.openBody at hopen
    dsimp only at hopen
    rw [RowCmd.columnPieces_full hdebug hfull (Nat.zero_add _) (Nat.lt_succ_self _)] at hopen
    cases hopen

/-- **The result of a `SELECT` is decoded back**, whatever pieces it arrives in. -/
theorem select_round_trip {cfg : Config} {db : Db} {titor : Titor} {opened : List Piece}
    (hopen : Y2.openBody cfg db (some titor) = .ok opened) (rowBytes : Row → List UInt8)
    {rows : List Row}
    (hrows : ∀ r ∈ rows, (rowBytes r).length = hgridGetRowSize (db.pages titor.m.gp.header))
    (hsize : hgridGetRowSize (db.pages titor.m.gp.header) ≤ bufsz) {conn : ScrcConnection}
    (hrpos : conn.rpos = 0) (hrlen : conn.rlen = 0) (hstatus : conn.status = scrcOk)
    (hsucceeds : ∀ t ∈ conn.sockfd.outcomes, t.Succeeds) (rest : List UInt8)
    (harriving : conn.sockfd.arriving = response rowBytes (opened
      ++ rows.map (.row (hgridGetRowSize (db.pages titor.m.gp.header))) ++ [.finish]) ++ rest)
    (query : List UInt8) :
    ∃ conn', conn.scrcQuery (some query) scrcOk = .ok (conn', scrcOk)
      ∧ conn'.columns = (userColumns (db.pages titor.m.gp.header)).map Column.bytes
      ∧ Fetches (userColumns (db.pages titor.m.gp.header)) rest (rows.map rowBytes) conn' := by
  have hview : conn.view = conn.sockfd.arriving := by
    rw [view, hrlen, hrpos]
    rfl
  have hhealthy : conn.Healthy := ⟨⟨by omega, by omega⟩, hsucceeds⟩
  have hagrees : Agrees conn ⟨conn.status, conn.columns, conn.body, conn.view, false⟩ :=
    ⟨hhealthy, rfl, rfl, rfl, rfl⟩
  have hopened := openBody_pieces hopen
  generalize db.pages titor.m.gp.header = header at hopened hrows hsize harriving ⊢
  obtain ⟨pieces, hpieces⟩ : ∃ pieces : List Piece,
      pieces = rows.map (.row (hgridGetRowSize header)) ++ [.finish] := ⟨_, rfl⟩
  have hstream : conn.view = response rowBytes (.bodyHeader :: .tabheader ::
      ((userColumns header).map .column ++ .finish :: .tabdata :: pieces)) ++ rest := by
    rw [hview, harriving, hopened, hpieces]
    simp only [List.append_assoc, List.cons_append, List.nil_append]
  have hheader : Decoder.header conn.view = (scrcOk, true, response rowBytes (.tabheader ::
      ((userColumns header).map .column ++ .finish :: .tabdata :: pieces)) ++ rest) := by
    rw [hstream]
    exact Decoder.header_bodyHeader _
  have hkept : conn.QueryKept (some query) scrcOk := by
    have hplain := @plainHeader_body rowBytes (.tabheader ::
      ((userColumns header).map .column ++ .finish :: .tabdata :: pieces)) rest
    rw [← hstream] at hplain
    refine queryKept_of_plain (early_le (by decide)) hhealthy ?_ hplain ?_ _ _
    · rw [hrpos, hstream, response_cons, Decoder.bodyHeader_flatten, List.append_assoc,
        List.length_append]
      show 0 + (23 + _) ≤ _
      omega
    · intro rest₁ rest₂ hrest₁ hrest₂
      rw [hheader] at hrest₁
      cases hrest₁
      rw [response_cons, Piece.sends, List.flatten_singleton, List.append_assoc,
        Decoder.cmd_cmdBytes] at hrest₂
      cases hrest₂
      exact Decoder.plainColumns_columns _ _ _
  obtain ⟨conn', hquery, hagrees'⟩ := scrcQuery_decodes hagrees (some query) scrcOk hkept
  rw [query_response (userColumns header) pieces hstatus hstream query] at hquery hagrees'
  refine ⟨conn', hquery, hagrees'.columns, ?_⟩
  apply fetches_rows hagrees' rfl rfl hsize hrows
  show response rowBytes pieces ++ rest = _
  rw [hpieces]

/-- One column and one row, in pieces of five bytes. -/
theorem select_round_trip_small :
    ∃ conn', (fresh (fun _ => 1) (List.replicate 20 (.moved 4))
        (response (fun _ => List.replicate 24 7) ([.bodyHeader, .tabheader,
          .column ⟨[97], 16, .bigint, 0⟩, .finish, .tabdata] ++ [.row 24 Row.zero] ++ [.finish])
          ++ [1, 2])).scrcQuery (some [1]) scrcOk = .ok (conn', scrcOk)
      ∧ conn'.columns = [Column.bytes ⟨[97], 16, .bigint, 0⟩]
      ∧ Fetches [⟨[97], 16, .bigint, 0⟩] [1, 2] [List.replicate 24 7] conn' := by
  have hopen : Y2.openBody ⟨.debug, 4096⟩ (smallDb 2) (some smallRow) = .ok [.bodyHeader, .tabheader,
      .column ⟨[97], 16, .bigint, 0⟩, .finish, .tabdata] := rfl
  have hsize : hgridGetRowSize ((smallDb 2).pages smallRow.m.gp.header) = 24 := by decide
  have hcolumns : userColumns ((smallDb 2).pages smallRow.m.gp.header) = [⟨[97], 16, .bigint, 0⟩] := by
    decide
  have htrip := @select_round_trip _ _ _ _ hopen (fun _ => List.replicate 24 7) [Row.zero]
    (fun _ _ => by rw [hsize, List.length_replicate]) (by rw [hsize]; decide)
    (fresh (fun _ => 1) (List.replicate 20 (.moved 4))
      (response (fun _ => List.replicate 24 7) ([.bodyHeader, .tabheader,
        .column ⟨[97], 16, .bigint, 0⟩, .finish, .tabdata] ++ [.row 24 Row.zero] ++ [.finish])
        ++ [1, 2])) rfl rfl rfl
    (by
      intro t ht
      rw [(List.mem_replicate.mp ht).2]
      trivial)
    [1, 2] (by rw [hsize]; rfl) [1]
  rw [hcolumns] at htrip
  exact htrip

end ScrcConnection

end Scroller
