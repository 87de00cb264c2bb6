import Scroller.Proof.ScriptRequests
import Scroller.Proof.Truncation

/-!
# What a script prints

A client stays in step with the server: the responses on the stream are read one for each query, and each is printed
as it was sent. The lines of a header must not be read over a compaction of the receive buffer, so that a header has to
come early in the stream.
-/

namespace Scroller

open ByteMemory Execute

namespace ScrcConnection

/-! ### The read position -/

/-- The read position has moved on by no more than what has been read. -/
structure Ahead (conn conn' : ScrcConnection) : Prop where
  healthy : conn'.Healthy
  front : conn'.rpos + conn'.left ≤ conn.rpos + conn.left

theorem Ahead.trans {conn conn' conn'' : ScrcConnection} (h : Ahead conn conn') (h' : Ahead conn' conn'') :
    Ahead conn conn'' := ⟨h'.healthy, h'.front.trans h.front⟩

theorem Ahead.refl {conn : ScrcConnection} (h : conn.Healthy) : Ahead conn conn := ⟨h, Nat.le_refl _⟩

/-- Only the read position and what is received count. -/
theorem Ahead.congr {conn conn' conn'' : ScrcConnection} (h : Ahead conn conn') (hrpos : conn''.rpos = conn'.rpos)
    (hrlen : conn''.rlen = conn'.rlen) (hsockfd : conn''.sockfd = conn'.sockfd) : Ahead conn conn'' where
  healthy := ⟨⟨hrpos ▸ hrlen ▸ h.healthy.bounded.rpos_le, hrlen ▸ h.healthy.bounded.rlen_le⟩,
    hsockfd ▸ h.healthy.succeeds⟩
  front := by
    rw [left, hrpos, hrlen, hsockfd]
    exact h.front

theorem Unchanged.ahead {conn conn' : ScrcConnection} (h : Unchanged conn conn') : Ahead conn conn' where
  healthy := h.healthy
  front := by
    rw [← length_view, ← length_view]
    exact h.front

section Ahead

variable {conn conn' : ScrcConnection}

theorem recvBlock_ahead (h : conn.Healthy) {size : Nat} {r : Except UInt32 Nat}
    (hblock : conn.recvBlock size = .ok (conn', r)) : Ahead conn conn' := by
  obtain ⟨conn₁, r₁, hblock₁, hunchanged, -⟩ := recvBlock_decodes h size
  cases hblock.symm.trans hblock₁
  exact hunchanged.ahead

theorem recvCmd_ahead (h : conn.Healthy) {r : Except UInt32 UInt32} (hcmd : conn.recvCmd = .ok (conn', r)) :
    Ahead conn conn' := by
  obtain ⟨conn₁, r₁, hcmd₁, hunchanged, -⟩ := recvCmd_decodes h
  cases hcmd.symm.trans hcmd₁
  exact hunchanged.ahead

theorem recvRow_ahead (h : conn.Healthy) {r : Except UInt32 (Nat × Nat)} (hrow : conn.recvRow = .ok (conn', r)) :
    Ahead conn conn' := by
  obtain ⟨conn₁, r₁, hrow₁, hunchanged, -⟩ := recvRow_decodes h
  cases hrow.symm.trans hrow₁
  exact hunchanged.ahead

theorem headerLineLoop_ahead {room start : Nat} {name : Option Nat} {r : Except UInt32 HeaderLine} (h : conn.Healthy)
    (hloop : headerLineLoop room conn start name = .ok (conn', r)) : Ahead conn conn' := by
  induction room generalizing conn start name with
  | zero =>
      cases hloop
      exact .refl h
  | succ room ih =>
      obtain ⟨⟨conn₁, r₁⟩, hblock, hloop⟩ := bind_eq_ok.mp hloop
      have hahead := recvBlock_ahead h hblock
      cases r₁ with
      | error ret =>
          cases hloop
          exact hahead
      | ok p =>
          dsimp only at hloop
          split at hloop
          · obtain ⟨⟨rbuf, src⟩, -, hloop⟩ := bind_eq_ok.mp hloop
            have hset : Ahead conn { conn₁ with rbuf } := hahead.congr rfl rfl rfl
            exact hset.trans (ih hset.healthy hloop)
          · split at hloop
            · obtain ⟨⟨rbuf, src⟩, -, hloop⟩ := bind_eq_ok.mp hloop
              cases name <;> cases hloop <;> exact hahead.congr rfl rfl rfl
            · exact hahead.trans (ih hahead.healthy hloop)

theorem recvHeaderLine_ahead {r : Except UInt32 HeaderLine} (h : conn.Healthy)
    (hline : conn.recvHeaderLine = .ok (conn', r)) : Ahead conn conn' := by
  obtain ⟨⟨conn₁, r₁⟩, hblock, hline⟩ := bind_eq_ok.mp hline
  have hahead := recvBlock_ahead h hblock
  cases r₁ with
  | error ret =>
      cases hline
      exact hahead
  | ok start =>
      dsimp only at hline
      split at hline
      · cases hline
        exact hahead
      · exact hahead.trans (headerLineLoop_ahead hahead.healthy hline)

theorem headerLoop_ahead {fuel : Nat} {status : UInt32} (h : conn.Healthy)
    (hloop : headerLoop fuel conn = .ok (conn', status)) : Ahead conn conn' := by
  induction fuel generalizing conn with
  | zero => cases hloop
  | succ fuel ih =>
      obtain ⟨⟨conn₁, r₁⟩, hline, hloop⟩ := bind_eq_ok.mp hloop
      have hahead := recvHeaderLine_ahead h hline
      cases r₁ with
      | error ret =>
          cases hloop
          exact hahead
      | ok hl =>
          obtain ⟨name, -, hloop⟩ := bind_eq_ok.mp hloop
          obtain ⟨value, -, hloop⟩ := bind_eq_ok.mp hloop
          cases hstep : headerStep name value conn₁.body with
          | error ret =>
              rw [hstep] at hloop
              cases hloop
              exact hahead
          | ok body =>
              rw [hstep] at hloop
              have hset : Ahead conn { conn₁ with body } := hahead.congr rfl rfl rfl
              exact hset.trans (ih hset.healthy hloop)

theorem columnsLoop_ahead {fuel : Nat} {r : Except UInt32 Unit} (h : conn.Healthy)
    (hloop : columnsLoop fuel conn = .ok (conn', r)) : Ahead conn conn' := by
  induction fuel generalizing conn with
  | zero => cases hloop
  | succ fuel ih =>
      obtain ⟨⟨conn₁, r₁⟩, hrow, hloop⟩ := bind_eq_ok.mp hloop
      have hahead := recvRow_ahead h hrow
      cases r₁ with
      | error ret =>
          dsimp only at hloop
          split at hloop <;> cases hloop <;> exact hahead.congr rfl rfl rfl
      | ok row =>
          obtain ⟨p, size⟩ := row
          dsimp only at hloop
          split at hloop
          · cases hloop
          · have hset : Ahead conn { conn₁ with columns := conn₁.columns ++ [slice conn₁.rbuf p sizeofColumn] } :=
              hahead.congr rfl rfl rfl
            exact hset.trans (ih hset.healthy hloop)

theorem recvTable_ahead {status : UInt32} (h : conn.Healthy) (htable : conn.recvTable = .ok (conn', status)) :
    Ahead conn conn' := by
  obtain ⟨⟨conn₁, r₁⟩, hcmd, htable⟩ := bind_eq_ok.mp htable
  have hahead := recvCmd_ahead h hcmd
  cases r₁ with
  | error ret =>
      cases htable
      exact hahead.congr rfl rfl rfl
  | ok cmd =>
      dsimp only at htable
      split at htable
      · cases htable
        exact hahead.congr rfl rfl rfl
      · obtain ⟨⟨conn₂, r₂⟩, hcolumns, htable⟩ := bind_eq_ok.mp htable
        have hahead₂ := hahead.trans (columnsLoop_ahead hahead.healthy hcolumns)
        cases r₂ with
        | error ret =>
            cases htable
            exact hahead₂.congr rfl rfl rfl
        | ok _ =>
            obtain ⟨⟨conn₃, r₃⟩, hcmd₃, htable⟩ := bind_eq_ok.mp htable
            have hahead₃ := hahead₂.trans (recvCmd_ahead hahead₂.healthy hcmd₃)
            cases r₃ with
            | error ret =>
                cases htable
                exact hahead₃.congr rfl rfl rfl
            | ok cmd₃ =>
                dsimp only at htable
                split at htable <;> cases htable <;> exact hahead₃.congr rfl rfl rfl

theorem scrcQuery_ahead {query : Option (List UInt8)} {sent status : UInt32} (h : conn.Healthy)
    (hquery : conn.scrcQuery query sent = .ok (conn', status)) : Ahead conn conn' := by
  unfold scrcQuery at hquery
  split at hquery
  · cases hquery
    exact .refl h
  · cases query with
    | none =>
        cases hquery
        exact .refl h
    | some query =>
        have hempty : Ahead conn { conn with columns := [] } := (Ahead.refl h).congr rfl rfl rfl
        dsimp only at hquery
        generalize (if query = [] then scrcOk else sent) = ret at hquery
        split at hquery
        · cases hquery
          exact hempty.congr rfl rfl rfl
        · obtain ⟨⟨conn₁, ret⟩, hheader, hquery⟩ := bind_eq_ok.mp hquery
          have hstart : Ahead conn { conn with columns := [], body := false } := (Ahead.refl h).congr rfl rfl rfl
          have hahead := hstart.trans (headerLoop_ahead hstart.healthy hheader)
          dsimp only at hquery
          split at hquery
          · cases hquery
            exact hahead.congr rfl rfl rfl
          · split at hquery
            · cases hquery
              exact hahead
            · exact hahead.trans (recvTable_ahead hahead.healthy hquery)

end Ahead

/-! ### Rows -/

section Rows

variable {conn : ScrcConnection} {rest : List UInt8}

theorem fetchRow_bytes (h : conn.Healthy) (hbody : conn.body = true) {bytes : List UInt8}
    (hrow : Decoder.row conn.view = (.ok bytes, rest)) :
    ∃ conn' p, conn.scrcFetchRow = .ok (conn', scrcOk, some (some (p, bytes.length))) ∧ Ahead conn conn'
      ∧ conn'.status = scrcOk ∧ conn'.columns = conn.columns ∧ conn'.body = true ∧ conn'.view = rest
      ∧ slice conn'.rbuf p bytes.length = bytes ∧ p + bytes.length ≤ fullsz := by
  obtain ⟨conn₁, r, hrecv, hunchanged, hview, hbytes, hend⟩ := recvRow_decodes h
  rw [hrow] at hview hbytes
  cases r with
  | error ret => cases hbytes
  | ok row =>
      obtain ⟨p, size⟩ := row
      have hslice : slice conn₁.rbuf p size = bytes := Except.ok.inj hbytes
      have hsize : size = bytes.length := by rw [← hslice, length_slice]
      subst hsize
      have hpos : p + bytes.length = conn₁.rpos := hend _ rfl
      have hrpos := hunchanged.healthy.bounded.rpos_le
      have hrlen := hunchanged.healthy.bounded.rlen_le
      refine ⟨{ conn₁ with status := scrcOk }, p, ?_, hunchanged.ahead.congr rfl rfl rfl, rfl, hunchanged.columns,
        hunchanged.body.trans hbody, hview, hslice, by omega⟩
      rw [scrcFetchRow, if_neg (by rw [hbody]; exact Bool.true_eq_false_eq_False), hrecv]
      rfl

theorem fetchRow_end (h : conn.Healthy) (hbody : conn.body = true)
    (hrow : Decoder.row conn.view = (.error scrcEnd, rest)) :
    ∃ conn', conn.scrcFetchRow = .ok (conn', scrcOk, some none) ∧ Ahead conn conn' ∧ conn'.status = scrcOk
      ∧ conn'.columns = conn.columns ∧ conn'.view = rest := by
  obtain ⟨conn₁, r, hrecv, hunchanged, hview, hbytes, -⟩ := recvRow_decodes h
  rw [hrow] at hview hbytes
  cases r with
  | ok row => cases hbytes
  | error ret =>
      have hret : ret = scrcEnd := Except.error.inj hbytes
      subst hret
      refine ⟨{ conn₁ with status := scrcOk }, ?_, hunchanged.ahead.congr rfl rfl rfl, rfl, hunchanged.columns, hview⟩
      rw [scrcFetchRow, if_neg (by rw [hbody]; exact Bool.true_eq_false_eq_False), hrecv]
      rfl

end Rows

end ScrcConnection

/-! ### Printing -/

/-- How much of a cell is printed. -/
def Column.shownSize (c : Column) : Nat :=
  match c.type with
  | .unknown | .name => 0
  | .smallint => 2
  | .integer => 4
  | .bigint => 8
  | .char | .varchar => c.size.toNat

/-- What is printed of the bytes of a row. -/
def Column.shown (c : Column) (row : List UInt8) : List UInt8 := (row.drop c.offs.toNat).take c.shownSize

namespace ScrcConnection

theorem columnType_bytes (c : Column) : columnType c.bytes = c.type.number := by
  have hfront : ((c.name ++ List.replicate namesz 0).take namesz ++ LittleEndian.toBytes 8 c.offs.toNat).length
      = 24 := by
    rw [List.length_append, List.length_take, List.length_append, LittleEndian.length_toBytes, List.length_replicate,
      namesz]
    omega
  have htype : (LittleEndian.toBytes 2 c.type.number).length = 2 := LittleEndian.length_toBytes 2 _
  rw [columnType, Column.bytes, List.append_assoc, List.drop_left' hfront, List.append_assoc, List.take_left' htype]
  exact LittleEndian.ofBytes_toBytes_of_lt (by cases c.type <;> decide)

theorem printedSize_bytes (c : Column) : printedSize c.bytes = .ok c.shownSize := by
  rw [printedSize, columnType_bytes, columnSize_bytes, Column.shownSize]
  cases c.type <;> rfl

section Print

variable {conn : ScrcConnection} {columns : List Column} {rowBytes : Row → List UInt8} {rest : List UInt8}

theorem printCells_columns (hstatus : conn.status = scrcOk) (hcolumns : conn.columns = columns.map Column.bytes)
    {p : Nat} {row : List UInt8} (hrow : slice conn.rbuf p row.length = row) (hend : p + row.length ≤ fullsz)
    (hinside : ∀ c ∈ columns, c.offs.toNat + c.shownSize ≤ row.length) {done left : List Column}
    (hsplit : columns = done ++ left) :
    printCells p left.length done.length conn = .ok (conn, left.map fun c => c.shown row) := by
  induction left generalizing done with
  | nil => rfl
  | cons c left ih =>
      have hplace : columns[done.length]? = some c := by
        rw [hsplit, List.getElem?_append_right (Nat.le_refl _), Nat.sub_self]
        rfl
      have hbytes : conn.columns.getD done.length [] = c.bytes := by
        rw [List.getD_eq_getElem?_getD, hcolumns, List.getElem?_map, hplace]
        rfl
      have hc := hinside c (by rw [hsplit]; exact List.mem_append_right _ List.mem_cons_self)
      have hshown : slice conn.rbuf (p + c.offs.toNat) c.shownSize = c.shown row := by
        rw [Column.shown, ← hrow, drop_slice _ _ (by omega), take_slice _ _ (by omega)]
      have hnext := @ih (done ++ [c]) (by rw [hsplit, List.append_assoc]; rfl)
      rw [List.length_append, List.length_singleton] at hnext
      rw [List.length_cons, printCells, hbytes, printedSize_bytes]
      simp only [fetchCell_column hstatus hcolumns hplace, bind, Except.bind, hnext]
      rw [if_neg (by omega), hshown]
      rfl

theorem printRows_rows (h : conn.Healthy) (hbody : conn.body = true) (hcolumns : conn.columns = columns.map Column.bytes)
    {rows : List (Nat × Row)} (hrows : ∀ row ∈ rows, (rowBytes row.2).length = row.1 ∧ row.1 ≤ bufsz)
    (hinside : ∀ c ∈ columns, ∀ row ∈ rows, c.offs.toNat + c.shownSize ≤ row.1)
    (hview : conn.view = response rowBytes (rowPieces rows ++ [.finish]) ++ rest) {fuel : Nat}
    (hfuel : rows.length < fuel) :
    ∃ conn', printRows fuel conn
        = .ok (conn', scrcOk, rows.map fun row => columns.map fun c => c.shown (rowBytes row.2))
      ∧ Ahead conn conn' ∧ conn'.status = scrcOk ∧ conn'.columns = conn.columns ∧ conn'.view = rest := by
  obtain ⟨fuel, rfl⟩ := Nat.exists_eq_succ_of_ne_zero (Nat.ne_zero_of_lt hfuel)
  induction rows generalizing conn fuel with
  | nil =>
      have hdecoded : Decoder.row conn.view = (.error scrcEnd, rest) := by
        rw [hview]
        exact Decoder.row_finish []
      obtain ⟨conn', hfetch, hahead, hstatus, hkept, hrest⟩ := fetchRow_end h hbody hdecoded
      refine ⟨conn', ?_, hahead, hstatus, hkept, hrest⟩
      rw [Nat.succ_eq_add_one, printRows, hfetch]
      rfl
  | cons row rows ih =>
      obtain ⟨hsize, hfits⟩ := hrows row List.mem_cons_self
      have hdecoded : Decoder.row conn.view
          = (.ok (rowBytes row.2), response rowBytes (rowPieces rows ++ [.finish]) ++ rest) := by
        rw [hview]
        exact Decoder.row_slot hsize hfits _
      obtain ⟨conn₁, p, hfetch, hahead, hstatus, hkept, hbody₁, hrest, hslice, hend⟩ := fetchRow_bytes h hbody hdecoded
      have hcells := @printCells_columns conn₁ columns hstatus (hkept.trans hcolumns) p (rowBytes row.2) hslice hend
        (fun c hc => hsize.symm ▸ hinside c hc row List.mem_cons_self) [] columns rfl
      have hlength : conn₁.columns.length = columns.length := by rw [hkept, hcolumns, List.length_map]
      obtain ⟨fuel, rfl⟩ := Nat.exists_eq_succ_of_ne_zero (Nat.ne_zero_of_lt (Nat.lt_of_succ_lt_succ hfuel))
      obtain ⟨conn', hprint, hahead', hstatus', hkept', hrest'⟩ := ih hahead.healthy hbody₁ (hkept.trans hcolumns)
        (fun r hr => hrows r (List.mem_cons_of_mem _ hr)) (fun c hc r hr => hinside c hc r (List.mem_cons_of_mem _ hr))
        hrest fuel (Nat.lt_of_succ_lt_succ hfuel)
      refine ⟨conn', ?_, hahead.trans hahead', hstatus', hkept'.trans hkept, hrest'⟩
      rw [Nat.succ_eq_add_one, printRows, hfetch]
      simp only [bind, Except.bind, ne_eq, not_true_eq_false, if_false, hlength, List.length_nil ▸ hcells, hprint]
      rfl

theorem length_rows_le (rows : List (Nat × Row)) (pieces : List Piece) :
    rows.length ≤ (response rowBytes (rowPieces rows ++ pieces)).length := by
  induction rows with
  | nil => exact Nat.zero_le _
  | cons row rows ih =>
      have hcons : response rowBytes (rowPieces (row :: rows) ++ pieces)
          = (Piece.sends rowBytes (.row row.1 row.2)).flatten ++ response rowBytes (rowPieces rows ++ pieces) :=
        response_cons _ _ _
      have hcmd := @cmd_le_of_readByRow rowBytes (.row row.1 row.2) rfl
      rw [hcons, List.length_append, List.length_cons, sizeofScrcCmd] at *
      omega

/-! ### Responses -/

/-- Only the distance from the start counts. -/
theorem PlainHeader.shift {total early fuel : Nat} {body : Bool} {s : List UInt8}
    (h : PlainHeader total early fuel body s) (n : Nat) : PlainHeader (n + total) (n + early) fuel body s := by
  induction fuel generalizing body s with
  | zero => exact trivial
  | succ fuel ih =>
      obtain ⟨hfirst, hread, hnext⟩ := h
      exact ⟨hfirst, by omega, fun name value rest hline body' hstep => ih (hnext name value rest hline body' hstep)⟩

theorem plainHeader_end (total early fuel : Nat) (body : Bool) (s : List UInt8)
    (hread : total ≤ early + (ascii "$$\n" ++ s).length) : PlainHeader total early fuel body (ascii "$$\n" ++ s) := by
  cases fuel with
  | zero => exact trivial
  | succ fuel =>
      refine PlainHeader.line (by intro b hb; cases hb; decide) hread (Decoder.line_end s) rfl ?_
      intro body' hbody
      cases hbody

/-- The header of a response in front of other ones is plain. -/
theorem plainHeader_stream (r : ServerResponse) (fuel : Nat) :
    PlainHeader (response rowBytes r.pieces ++ rest).length 23 fuel false (response rowBytes r.pieces ++ rest) := by
  cases fuel with
  | zero => exact trivial
  | succ fuel =>
      cases r with
      | status st =>
          have hline : ∀ t, Decoder.line ((headerInt (ascii "Status") st.number).flatten ++ t)
              = (.ok (ascii "Status", some (ascii (toString st.number))), t) := by
            cases st <;> exact fun t => rfl
          have hlen : (headerInt (ascii "Status") st.number).flatten.length ≤ 23 := by cases st <;> decide
          have hfirst : ∀ t, ∀ b ∈ ((headerInt (ascii "Status") st.number).flatten ++ t).head?, isspace b = false := by
            cases st <;> intro t b hb <;> cases hb <;> decide
          rw [ServerResponse.pieces, response_status, List.append_assoc]
          refine PlainHeader.line (hfirst _) (Nat.le_add_left _ _) (hline _) rfl fun body' _ => ?_
          apply plainHeader_end
          rw [List.length_append]
          omega
      | body columns rows =>
          obtain ⟨t, ht⟩ : ∃ t, response rowBytes (ServerResponse.body columns rows).pieces ++ rest
              = ascii "Status: 0\n" ++ (ascii "Body: Yes\n" ++ (ascii "$$\n" ++ t)) := by
            refine ⟨response rowBytes (tableHead columns ++ (rowPieces rows ++ [.finish])) ++ rest, ?_⟩
            rw [ServerResponse.pieces, head_eq, List.append_assoc, List.append_assoc, List.singleton_append,
              response_cons, Decoder.bodyHeader_flatten, List.append_assoc, List.append_assoc, List.append_assoc]
          have hstatus : (ascii "Status: 0\n").length = 10 := by decide
          have hbody : (ascii "Body: Yes\n").length = 10 := by decide
          rw [ht]
          refine PlainHeader.line (by intro b hb; cases hb; decide) (Nat.le_add_left _ _) (Decoder.line_status _) rfl
            fun body' hstep => ?_
          cases hstep
          cases fuel with
          | zero => exact trivial
          | succ fuel =>
              refine PlainHeader.line (by intro b hb; cases hb; decide) ?_ (Decoder.line_body _) rfl fun body' hstep => ?_
              · rw [List.length_append, hstatus]
                omega
              · apply plainHeader_end
                rw [List.length_append, List.length_append, hstatus, hbody]
                omega

end Print

end ScrcConnection

namespace ServerResponse

/-- The status that the client has behind a response. -/
def result : ServerResponse → Except UInt32 UInt32
  | .status st => if st = .ok then .ok scrcOk else .error st.number.toUInt32
  | .body _ _ => .ok scrcOk

/-- What the client prints for a response. -/
def printed (rowBytes : Row → List UInt8) : ServerResponse → Printed
  | .status st => if st = .ok then .ok else .error st.number.toUInt32
  | .body columns rows =>
      .table (columns.map Column.bytes) (rows.map fun row => columns.map fun c => c.shown (rowBytes row.2)) scrcOk

/-- The cells that are printed lie in their rows. -/
def Inside : ServerResponse → Prop
  | .status _ => True
  | .body columns rows => ∀ c ∈ columns, ∀ row ∈ rows, c.offs.toNat + c.shownSize ≤ row.1

end ServerResponse

/-! ### A query and its response -/

open ScrcConnection

section Query

variable {rowBytes : Row → List UInt8} {rest : List UInt8} {r : ServerResponse}

theorem header_ok (s : List UInt8) : Decoder.header (response rowBytes [.status .ok] ++ s) = (scrcOk, false, s) := by
  have hloop : ∀ n s, Decoder.headerLoop (n + 2) false (ascii "Status: 0\n" ++ (ascii "$$\n" ++ s)) = (scrcOk, false, s) :=
    fun n s => rfl
  have hbytes : response rowBytes [.status .ok] ++ s = ascii "Status: 0\n" ++ (ascii "$$\n" ++ s) := rfl
  have hlen : (response rowBytes [.status .ok] ++ s).length + 1 = s.length + 12 + 2 := by
    rw [List.length_append]
    show 13 + _ + 1 = _
    omega
  rw [Decoder.header, hlen, hbytes]
  exact hloop _ _

theorem header_error {st : ScrcStatus} (hst : st ≠ .ok) (s : List UInt8) :
    Decoder.header (response rowBytes [.status st] ++ s) = (st.number.toUInt32, false, ascii "$$\n" ++ s) := by
  rw [response_status, List.append_assoc]
  exact Decoder.header_status hst _

theorem number_ne_ok {st : ScrcStatus} (hst : st ≠ .ok) : st.number.toUInt32 ≠ scrcOk := by
  cases st <;> first | exact absurd rfl hst | decide

/-- What the decoder knows behind the query. -/
def ServerResponse.decoded (rowBytes : Row → List UInt8) (rest : List UInt8) : ServerResponse → Decoder
  | .status st =>
      if st = .ok then ⟨scrcOk, [], false, rest, false⟩
      else ⟨st.number.toUInt32, [], false, ascii "$$\n" ++ rest, false⟩
  | .body columns rows =>
      ⟨scrcOk, columns.map Column.bytes, true, response rowBytes (rowPieces rows ++ [.finish]) ++ rest, false⟩

theorem pieces_body (columns : List Column) (rows : List (Nat × Row)) :
    (ServerResponse.body columns rows).pieces = .bodyHeader :: .tabheader ::
      (columns.map .column ++ .finish :: .tabdata :: (rowPieces rows ++ [.finish])) := by
  simp only [ServerResponse.pieces, ServerResponse.head, List.append_assoc, List.cons_append, List.nil_append]

theorem query_decoded {d : Decoder} (hstatus : d.status = scrcOk) (hfetched : d.fetched = false)
    (hstream : d.stream = response rowBytes r.pieces ++ rest) (query : List UInt8) :
    d.query (some query) scrcOk = (r.decoded rowBytes rest, (r.decoded rowBytes rest).status) := by
  cases r with
  | status st =>
      by_cases hst : st = .ok
      · subst hst
        rw [Decoder.query_of_ok hstatus (hstream ▸ header_ok rest), if_pos rfl, hstatus, hfetched]
        rfl
      · rw [Decoder.query_of_error hstatus (hstream ▸ header_error hst rest) (number_ne_ok hst), hfetched,
          ServerResponse.decoded, if_neg hst]
  | body columns rows =>
      rw [pieces_body] at hstream
      rw [query_response columns _ hstatus hstream query, hfetched]
      rfl

theorem queryKept_response {conn : ScrcConnection} (h : conn.Healthy) (hearly : conn.rpos + 23 + headerMax ≤ bufsz)
    (hview : conn.view = response rowBytes r.pieces ++ rest) (query : List UInt8) :
    conn.QueryKept (some query) scrcOk := by
  have hplain := (@plainHeader_stream rowBytes rest r (conn.view.length + 1)).shift conn.rpos
  rw [← hview] at hplain
  refine queryKept_of_plain hearly h (Nat.le_refl _) hplain ?_ _ _
  intro rest₁ rest₂ hheader hcmd
  rw [hview] at hheader
  cases r with
  | status st =>
      by_cases hst : st = .ok
      · subst hst
        change Decoder.header (response rowBytes [.status .ok] ++ rest) = _ at hheader
        rw [header_ok] at hheader
        cases hheader
      · change Decoder.header (response rowBytes [.status st] ++ rest) = _ at hheader
        rw [header_error hst] at hheader
        exact absurd (congrArg (·.2.1) hheader) Bool.false_ne_true
  | body columns rows =>
      rw [pieces_body, Decoder.header_bodyHeader] at hheader
      cases hheader
      rw [response_cons, Piece.sends, List.flatten_singleton, List.append_assoc, Decoder.cmd_cmdBytes] at hcmd
      cases hcmd
      exact Decoder.plainColumns_columns _ _ _

theorem scrcQuery_answered {conn : ScrcConnection} (h : conn.Healthy) (hstatus : conn.status = scrcOk)
    (hearly : conn.rpos + 23 + headerMax ≤ bufsz) (hview : conn.view = response rowBytes r.pieces ++ rest)
    (query : List UInt8) :
    ∃ conn', conn.scrcQuery (some query) scrcOk = .ok (conn', (r.decoded rowBytes rest).status)
      ∧ Agrees conn' (r.decoded rowBytes rest) ∧ Ahead conn conn' := by
  have hagrees : Agrees conn ⟨conn.status, conn.columns, conn.body, conn.view, false⟩ := ⟨h, rfl, rfl, rfl, rfl⟩
  obtain ⟨conn', hquery, hagrees'⟩ := scrcQuery_decodes hagrees (some query) scrcOk
    (queryKept_response h hearly hview query)
  rw [query_decoded hstatus rfl hview] at hquery hagrees'
  exact ⟨conn', hquery, hagrees', scrcQuery_ahead h hquery⟩

end Query

namespace Console

variable {stack : Nat → UInt8} {c : Console} {rowBytes : Row → List UInt8} {rest : List UInt8}

/-- A query is answered by the next response. Behind a response without an error the client can go on. -/
theorem ask_answered {query : CStr} (hlen : query.bytes.length < bufferSize) (hfailed : .failed ∉ c.sockfd.outcomes)
    {r : ServerResponse} (hfits : r.Fits rowBytes) (hinside : r.Inside) (h : c.conn.Healthy)
    (hstatus : c.conn.status = scrcOk) (hearly : c.conn.rpos + 23 + headerMax ≤ bufsz)
    (hview : c.conn.view = response rowBytes r.pieces ++ rest) :
    ∃ c', c.ask stack query = .ok (c', r.result) ∧ c'.printed = c.printed ++ [r.printed rowBytes]
      ∧ .failed ∉ c'.sockfd.outcomes ∧ c'.sockfd.written = c.sockfd.written ++ queryBlock stack query
      ∧ ∀ status, r.result = .ok status → status = scrcOk ∧ c'.conn.Healthy ∧ c'.conn.status = scrcOk
          ∧ c'.conn.view = rest ∧ c'.conn.rpos ≤ c.conn.rpos + (response rowBytes r.pieces).length := by
  obtain ⟨outcomes, hunfailed, hsent⟩ := sendQuery_unfailed hfailed stack hlen
  have hsend : c.send stack query = .ok (⟨outcomes, c.sockfd.written ++ queryBlock stack query⟩, scrcOk) :=
    (if_neg (not_not.mpr hstatus)).trans hsent
  obtain ⟨conn', hquery, hagrees, hahead⟩ := scrcQuery_answered h hstatus hearly hview query.bytes
  have hpos : ∀ {conn'' : ScrcConnection}, Ahead conn' conn'' → conn''.view = rest →
      conn''.rpos ≤ c.conn.rpos + (response rowBytes r.pieces).length := by
    intro conn'' hahead' hrest
    have hfront := (hahead.trans hahead').front
    rw [← length_view, ← length_view, hrest, hview, List.length_append] at hfront
    omega
  have hfirst := hagrees.status
  have hbody := hagrees.body
  have hrest := hagrees.view
  generalize hsockfd : (⟨outcomes, c.sockfd.written ++ queryBlock stack query⟩ : Outbound) = sockfd at hsend
  have hwritten : sockfd.written = c.sockfd.written ++ queryBlock stack query := by rw [← hsockfd]
  have hunfailed' : .failed ∉ sockfd.outcomes := by rwa [← hsockfd]
  cases r with
  | status st =>
      by_cases hst : st = .ok
      · subst hst
        refine ⟨print ⟨conn', sockfd, c.printed⟩ .ok, ?_, rfl, hunfailed', hwritten, fun status hr =>
          ⟨(Except.ok.inj hr).symm, hagrees.healthy, hfirst, hrest, hpos (.refl hagrees.healthy) hrest⟩⟩
        rw [ask, hsend]
        simp only [bind, Except.bind, hquery, hbody]
        rfl
      · have hdecoded : (ServerResponse.decoded rowBytes rest (.status st)).status = st.number.toUInt32 := by
          rw [ServerResponse.decoded, if_neg hst]
        have hresult : (ServerResponse.status st).result = .error st.number.toUInt32 := if_neg hst
        have hprinted : (ServerResponse.status st).printed rowBytes = .error st.number.toUInt32 := if_neg hst
        rw [hdecoded] at hquery hfirst
        refine ⟨print ⟨conn', sockfd, c.printed⟩ (.error conn'.status), ?_, ?_, hunfailed', hwritten, ?_⟩
        · rw [ask, hsend, hresult]
          simp only [bind, Except.bind, hquery]
          rw [if_pos (number_ne_ok hst)]
          rfl
        · rw [hprinted, ← hfirst]
          rfl
        · intro status hr
          rw [hresult] at hr
          cases hr
  | body columns rows =>
      have hfuel : rows.length < conn'.left + 1 := by
        have hle := @length_rows_le rowBytes rows [.finish]
        rw [← length_view, hrest, ServerResponse.decoded, List.length_append]
        omega
      obtain ⟨cells, hcells⟩ : ∃ cells : List (List (List UInt8)),
          cells = rows.map fun row => columns.map fun c => c.shown (rowBytes row.2) := ⟨_, rfl⟩
      obtain ⟨conn'', hprint, hahead', hstatus', hcolumns', hrest'⟩ := printRows_rows hagrees.healthy hbody
        hagrees.columns hfits hinside hrest hfuel
      rw [← hcells] at hprint
      refine ⟨print ⟨conn'', sockfd, c.printed⟩ (.table conn''.columns cells scrcOk), ?_, ?_, hunfailed', hwritten,
        fun status hr => ⟨(Except.ok.inj hr).symm, hahead'.healthy, hstatus', hrest', hpos hahead' hrest'⟩⟩
      · rw [ask, hsend]
        simp only [bind, Except.bind, hquery, hbody, printResponseBody, hprint]
        rfl
      · rw [hcolumns', hagrees.columns, hcells]
        rfl

/-! ### A script and its responses -/

/-- What is sent at the end of the input. -/
def remaining (rest : List (List UInt8)) : List (List (List UInt8)) :=
  if rest.flatten.dropWhile isspace = [] then [] else [rest]

/-- One response for each query, up to the first error, and the status of the run. -/
inductive Answered : List (List (List UInt8)) → List ServerResponse → UInt32 → Prop where
  | done : Answered [] [] scrcOk
  | ok {query : List (List UInt8)} {queries : List (List (List UInt8))} {r : ServerResponse} {rs : List ServerResponse}
      {status : UInt32} :
      r.result = .ok scrcOk → Answered queries rs status → Answered (query :: queries) (r :: rs) status
  | error {query : List (List UInt8)} {queries : List (List (List UInt8))} {r : ServerResponse} {status : UInt32} :
      r.result = .error status → Answered (query :: queries) [r] status

/-- The bytes of the responses. -/
def stream (rowBytes : Row → List UInt8) (rs : List ServerResponse) : List UInt8 :=
  rs.flatMap fun r => response rowBytes r.pieces

/-- Each header is read before the buffer is compacted. -/
def Early (rowBytes : Row → List UInt8) : Nat → List ServerResponse → Prop
  | _, [] => True
  | pos, r :: rs => pos + 23 + headerMax ≤ bufsz ∧ Early rowBytes (pos + (response rowBytes r.pieces).length) rs

theorem CStr.ofBuffer_append {s t : List UInt8} (hs : 0 ∉ s) (ht : 0 ∉ t) :
    (CStr.ofBuffer s).append (CStr.ofBuffer t) = CStr.ofBuffer (s ++ t) := by
  apply CStr.ext
  change (CStr.ofBuffer s).bytes ++ (CStr.ofBuffer t).bytes = _
  rw [CStr.ofBuffer_bytes hs, CStr.ofBuffer_bytes ht, CStr.ofBuffer_bytes (null_not_mem_append hs ht)]

/-- Lines without a semicolon are put into the buffer. -/
theorem scriptLoop_quiet {pending quiet : List (List UInt8)} (lines : List (List UInt8)) {st : LineState} {status : UInt32}
    (hpending : ∀ line ∈ pending, 0 ∉ line) (hnul : ∀ line ∈ quiet, 0 ∉ line) (hquiet : Quiet st quiet)
    (hlen : (pending ++ quiet).flatten.length < bufferSize) :
    c.scriptLoop stack (quiet ++ lines) (CStr.ofBuffer pending.flatten) st status
      = c.scriptLoop stack lines (CStr.ofBuffer (pending ++ quiet).flatten) (st.after quiet) status := by
  induction quiet generalizing pending st with
  | nil =>
      rw [List.append_nil]
      rfl
  | cons line quiet ih =>
      have hline := hnul line List.mem_cons_self
      have hbytes := CStr.ofBuffer_bytes hline
      have hbuffer := CStr.ofBuffer_bytes (null_not_mem_flatten hpending)
      have hsplit : pending ++ line :: quiet = pending ++ [line] ++ quiet := by
        rw [List.append_assoc]
        rfl
      have hpending' : ∀ line' ∈ pending ++ [line], 0 ∉ line' := by
        intro line' hmem
        rcases List.mem_append.mp hmem with hmem | hmem
        · exact hpending line' hmem
        · rwa [List.mem_singleton.mp hmem]
      have hsmall : ¬ bufferSize ≤ pending.flatten.length + line.length := by
        rw [hsplit, List.flatten_append, List.flatten_append, List.flatten_singleton, List.length_append,
          List.length_append] at hlen
        omega
      rw [hsplit] at hlen ⊢
      change _ = scriptLoop stack lines c _ ((lineHasSemicolon st line).state.after quiet) status
      rw [← ih hpending' (fun l hl => hnul l (List.mem_cons_of_mem _ hl)) hquiet.2 hlen, List.cons_append, scriptLoop]
      simp only [hbytes, hbuffer, if_neg hsmall]
      rw [if_neg (by rw [hquiet.1]; exact Bool.false_ne_true), CStr.ofBuffer_append (null_not_mem_flatten hpending) hline,
        List.flatten_append, List.flatten_singleton]

theorem scriptLoop_start {quiet : List (List UInt8)} (lines : List (List UInt8)) {st : LineState} {status : UInt32}
    (hnul : ∀ line ∈ quiet, 0 ∉ line) (hquiet : Quiet st quiet) (hlen : quiet.flatten.length < bufferSize) :
    c.scriptLoop stack (quiet ++ lines) CStr.empty st status
      = c.scriptLoop stack lines (CStr.ofBuffer quiet.flatten) (st.after quiet) status := by
  have hempty : CStr.ofBuffer ([] : List (List UInt8)).flatten = CStr.empty := CStr.ext rfl
  have hpass := @scriptLoop_quiet stack c [] quiet lines st status (fun _ h => absurd h List.not_mem_nil) hnul hquiet hlen
  rwa [hempty, List.nil_append] at hpass

/-- A query is asked for behind its last line. -/
theorem scriptLoop_query {query : List (List UInt8)} (lines : List (List UInt8)) {st : LineState} {status : UInt32}
    (hnul : ∀ line ∈ query, 0 ∉ line) (hcompletes : Completes st query) (hlen : query.flatten.length < bufferSize)
    {c₁ : Console} {r : Except UInt32 UInt32} (hask : c.ask stack (CStr.ofBuffer query.flatten) = .ok (c₁, r)) :
    c.scriptLoop stack (query ++ lines) CStr.empty st status =
      match r with
      | .error status => .ok (c₁, status)
      | .ok status => c₁.scriptLoop stack lines CStr.empty (st.after query) status := by
  obtain ⟨quiet, line, rfl, hquiet, hfound⟩ := hcompletes
  have hline := hnul line (List.mem_append_right _ List.mem_cons_self)
  have hquietNul : ∀ l ∈ quiet, 0 ∉ l := fun l hl => hnul l (List.mem_append_left _ hl)
  have hbytes := CStr.ofBuffer_bytes hline
  have hbuffer := CStr.ofBuffer_bytes (null_not_mem_flatten hquietNul)
  rw [List.flatten_append, List.flatten_singleton] at hlen hask
  have hsmall : ¬ bufferSize ≤ quiet.flatten.length + line.length := by
    rw [List.length_append] at hlen
    omega
  rw [List.append_assoc, scriptLoop_start _ hquietNul hquiet (by omega), List.singleton_append, scriptLoop]
  simp only [hbytes, hbuffer, if_neg hsmall]
  rw [if_pos hfound, CStr.ofBuffer_append (null_not_mem_flatten hquietNul) hline, hask, LineState.after_append]
  cases r <;> rfl

/-- The client is in step with responses that are to come. -/
structure InStep (c : Console) (rowBytes : Row → List UInt8) (pos : Nat) (rs : List ServerResponse) (more : List UInt8) :
    Prop where
  unfailed : .failed ∉ c.sockfd.outcomes
  healthy : c.conn.Healthy
  status : c.conn.status = scrcOk
  fits : ∀ r ∈ rs, r.Fits rowBytes ∧ r.Inside
  early : Early rowBytes pos rs
  pos_le : c.conn.rpos ≤ pos
  view : c.conn.view = stream rowBytes rs ++ more

theorem InStep.ask {pos : Nat} {r : ServerResponse} {rs : List ServerResponse} {more : List UInt8}
    (h : c.InStep rowBytes pos (r :: rs) more) {lines : List (List UInt8)} (hnul : ∀ line ∈ lines, 0 ∉ line)
    (hlen : lines.flatten.length < bufferSize) :
    ∃ c', c.ask stack (CStr.ofBuffer lines.flatten) = .ok (c', r.result)
      ∧ c'.printed = c.printed ++ [r.printed rowBytes] ∧ c'.sockfd.written = c.sockfd.written ++ request stack lines
      ∧ (r.result = .ok scrcOk → c'.InStep rowBytes (pos + (response rowBytes r.pieces).length) rs more) := by
  obtain ⟨hfirst, hearly⟩ := h.early
  obtain ⟨hfits, hinside⟩ := h.fits r List.mem_cons_self
  have hpos := h.pos_le
  have hview : c.conn.view = response rowBytes r.pieces ++ (stream rowBytes rs ++ more) := by
    rw [h.view, stream, List.flatMap_cons, List.append_assoc]
    rfl
  obtain ⟨c', hask, hprinted, hunfailed, hwritten, hnext⟩ := @ask_answered stack c rowBytes (stream rowBytes rs ++ more)
    (CStr.ofBuffer lines.flatten) (by rwa [CStr.ofBuffer_bytes (null_not_mem_flatten hnul)]) h.unfailed r hfits hinside
    h.healthy h.status (by omega) hview
  refine ⟨c', hask, hprinted, hwritten, fun hok => ?_⟩
  obtain ⟨-, hhealthy, hstatus, hrest, hrpos⟩ := hnext scrcOk hok
  exact ⟨hunfailed, hhealthy, hstatus, fun r' hr' => h.fits r' (List.mem_cons_of_mem _ hr'), hearly, by omega, hrest⟩

theorem scriptLoop_answers {queries : List (List (List UInt8))} {st : LineState} {rs : List ServerResponse}
    {status : UInt32} {pos : Nat} {left : List (List UInt8)} {more : List UInt8}
    (hnul : ∀ line ∈ queries.flatten ++ left, 0 ∉ line)
    (hshort : ∀ query ∈ left :: queries, query.flatten.length < bufferSize) (hcut : CutAt st queries)
    (hquiet : Quiet (st.after queries.flatten) left) (hanswered : Answered (queries ++ remaining left) rs status)
    (h : c.InStep rowBytes pos rs more) :
    ∃ c', c.scriptLoop stack (queries.flatten ++ left) CStr.empty st scrcOk = .ok (c', status)
      ∧ c'.printed = c.printed ++ rs.map (ServerResponse.printed rowBytes)
      ∧ c'.sockfd.written
        = c.sockfd.written ++ ((queries ++ remaining left).take rs.length).flatMap (request stack) := by
  induction queries generalizing c st rs pos with
  | nil =>
      have hleft : ∀ line ∈ left, 0 ∉ line := hnul
      have hlen := hshort left List.mem_cons_self
      have hpass := @scriptLoop_start stack c left [] st scrcOk hleft hquiet hlen
      rw [List.append_nil] at hpass
      rw [List.flatten_nil, List.nil_append, hpass, scriptLoop, CStr.ofBuffer_bytes (null_not_mem_flatten hleft)]
      rw [List.nil_append] at hanswered ⊢
      by_cases hblank : left.flatten.dropWhile isspace = []
      · rw [if_pos hblank]
        rw [remaining, if_pos hblank] at hanswered ⊢
        cases hanswered
        exact ⟨c, rfl, (List.append_nil _).symm, (List.append_nil _).symm⟩
      · rw [if_neg hblank]
        rw [remaining, if_neg hblank] at hanswered ⊢
        cases hanswered with
        | ok hr hrest =>
            cases hrest
            obtain ⟨c', hask, hprinted, hwritten, -⟩ := h.ask hleft hlen
            rw [hask, hr]
            exact ⟨c', rfl, hprinted, hwritten.trans (by simp)⟩
        | error hr =>
            obtain ⟨c', hask, hprinted, hwritten, -⟩ := h.ask hleft hlen
            rw [hask, hr]
            exact ⟨c', rfl, hprinted, hwritten.trans (by simp)⟩
  | cons query queries ih =>
      have hquery : ∀ line ∈ query, 0 ∉ line := fun line hline =>
        hnul line (List.mem_append_left _ (List.mem_append_left _ hline))
      have hlen := hshort query (List.mem_cons_of_mem _ List.mem_cons_self)
      rw [List.flatten_cons, List.append_assoc]
      rw [List.flatten_cons, LineState.after_append] at hquiet
      cases hanswered with
      | ok hr hrest =>
          obtain ⟨c₁, hask, hprinted, hwritten, hnext⟩ := h.ask hquery hlen
          rw [hr] at hask
          obtain ⟨c', hrun, hprinted', hwritten'⟩ := @ih c₁ (st.after query) _ _
            (fun line hline => hnul line (by
              rw [List.flatten_cons, List.append_assoc]
              exact List.mem_append_right _ hline))
            (fun q hq => hshort q (List.mem_cons.mpr ((List.mem_cons.mp hq).imp_right (List.mem_cons_of_mem _))))
            hcut.2 hquiet hrest (hnext hr)
          refine ⟨c', ?_, ?_, ?_⟩
          · rw [scriptLoop_query (queries.flatten ++ left) hquery hcut.1 hlen hask]
            exact hrun
          · rw [hprinted', hprinted, List.append_assoc]
            rfl
          · rw [hwritten', hwritten, List.append_assoc]
            rfl
      | error hr =>
          obtain ⟨c', hask, hprinted, hwritten, -⟩ := h.ask hquery hlen
          rw [hr] at hask
          refine ⟨c', scriptLoop_query (queries.flatten ++ left) hquery hcut.1 hlen hask, hprinted, ?_⟩
          rw [hwritten]
          simp

/-- **The client stays in step.** Where a script is cut into queries that fit in the buffer, and the stream has a response
for each of them up to the first error, the responses are printed as they were sent, in whatever pieces they arrive. The
queries behind an error are not sent, and the run ends with its status. -/
theorem script_answers (stack : Nat → UInt8) (rowBytes : Row → List UInt8) {c : Console} {text : List UInt8}
    {queries : List (List (List UInt8))} {left : List (List UInt8)} (htext : 0 ∉ text)
    (hsplit : inputLines text = queries.flatten ++ left) (hcut : CutAt .start queries)
    (hquiet : Quiet (LineState.start.after queries.flatten) left)
    (hshort : ∀ query ∈ left :: queries, query.flatten.length < bufferSize) {rs : List ServerResponse} {status : UInt32}
    (hanswered : Answered (queries ++ remaining left) rs status) {more : List UInt8}
    (h : c.InStep rowBytes c.conn.rpos rs more) :
    ∃ c', c.clientRunScript stack text = .ok (c', status)
      ∧ c'.printed = c.printed ++ rs.map (ServerResponse.printed rowBytes)
      ∧ c'.sockfd.written
        = c.sockfd.written ++ ((queries ++ remaining left).take rs.length).flatMap (request stack) := by
  have hnul : ∀ line ∈ queries.flatten ++ left, 0 ∉ line := by
    intro line hline hzero
    rw [← hsplit] at hline
    refine htext ?_
    rw [← flatten_fgetsLines (bufferSize - 2) (bufferSize - 2) text]
    exact List.mem_flatten.mpr ⟨line, hline, hzero⟩
  rw [clientRunScript, hsplit]
  exact scriptLoop_answers hnul hshort hcut hquiet hanswered h

/-- A client that receives a table and an error, in pieces of five bytes. -/
def answeredConsole : Console where
  conn := fresh (fun _ => 1) (List.replicate 40 (.moved 4)) (stream Client.smallBytes [Client.smallBody, .status .parserError])
  sockfd := ⟨[.moved 2, .interrupted], []⟩
  printed := []

theorem script_answers_small : ∃ c', answeredConsole.clientRunScript (fun _ => 0) (ascii "a;\n b") = .ok (c', 102)
    ∧ c'.printed = [.table [Column.bytes ⟨[97], 16, .bigint, 0⟩] [[List.replicate 8 7]] scrcOk, .error 102]
    ∧ c'.sockfd.written = request (fun _ => 0) [ascii "a;\n"] ++ request (fun _ => 0) [ascii " b"] := by
  have htext : 0 ∉ ascii "a;\n b" := by decide
  have hlength : (response Client.smallBytes Client.smallBody.pieces).length = 127 := rfl
  have hview : ∀ s, (fresh (fun _ => 1) (List.replicate 40 (.moved 4)) s).view = s := fun s => rfl
  have hcut : CutAt .start [[ascii "a;\n"]] := ⟨⟨[], ascii "a;\n", rfl, trivial, by decide⟩, trivial⟩
  have hquiet : Quiet (LineState.start.after [ascii "a;\n"]) [ascii " b"] := ⟨by decide, trivial⟩
  have hshort : ∀ query ∈ [[ascii " b"], [ascii "a;\n"]], query.flatten.length < bufferSize := by decide
  have hanswered : Answered [[ascii "a;\n"], [ascii " b"]] [Client.smallBody, .status .parserError] 102 :=
    .ok rfl (.error rfl)
  have hstep : answeredConsole.InStep Client.smallBytes 0 [Client.smallBody, .status .parserError] [] := by
    refine ⟨by decide, ⟨⟨Nat.le_refl _, Nat.zero_le _⟩, fun t ht => ?_⟩, rfl, fun r hr => ?_, ?_, Nat.le_refl _, ?_⟩
    · rw [List.eq_of_mem_replicate ht]
      trivial
    · rcases List.mem_cons.mp hr with rfl | hr
      · refine ⟨Client.smallBody_fits, fun column hcolumn row hrow => ?_⟩
        cases List.mem_singleton.mp hcolumn
        cases List.mem_singleton.mp hrow
        decide
      · cases List.mem_singleton.mp hr
        exact ⟨trivial, trivial⟩
    · refine ⟨by decide, ?_, trivial⟩
      rw [hlength]
      decide
    · rw [answeredConsole, hview, List.append_nil]
  obtain ⟨c', hrun, hprinted, hwritten⟩ := script_answers (fun _ => 0) Client.smallBytes htext rfl hcut hquiet hshort
    hanswered hstep
  exact ⟨c', hrun, hprinted, hwritten.trans rfl⟩

end Console

end Scroller
