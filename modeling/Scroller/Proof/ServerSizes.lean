import Scroller.Proof.PacketBoundaries

/-!
# Sizes that a server sends

A column is copied with the size of the struct, and a cell is handed out with the offset and the size of its column.
Neither is compared with the size of the record it is in, so that a client stays inside of the records exactly if the
server sends sizes that fit.
-/

namespace Scroller

open ByteMemory

namespace ScrcConnection

/-- The records that the loop of `scrc_query` receives. -/
def columnRecords : Nat → ScrcConnection → List (List UInt8)
  | 0, _ => []
  | fuel + 1, conn =>
      match conn.recvRow with
      | .ok (conn, .ok (row, size)) =>
          slice conn.rbuf row size
            :: columnRecords fuel { conn with columns := conn.columns ++ [slice conn.rbuf row sizeofColumn] }
      | _ => []

/-- The loop ends, and the columns it copies are the beginnings of the records it receives. -/
def ColumnsInside (fuel : Nat) (conn : ScrcConnection) : Prop :=
  ∃ conn' ret copies, columnsLoop fuel conn = .ok (conn', ret) ∧ conn'.columns = conn.columns ++ copies
    ∧ List.Forall₂ (· <+: ·) copies (columnRecords fuel conn)

/-- A query that gets as far as the columns of its response, where the connection is `conn'`. -/
def ReadsColumns (conn : ScrcConnection) (query : Option (List UInt8)) (sent : UInt32) (conn' : ScrcConnection) :
    Prop :=
  conn.status = scrcOk ∧ (∃ q, query = some q ∧ (if q = [] then scrcOk else sent) = scrcOk)
    ∧ ∃ conn₁, recvHeader { conn with columns := [] } = .ok (conn₁, scrcOk) ∧ conn₁.body = true
      ∧ conn₁.recvCmd = .ok (conn', .ok scrcCmdTabheader)

/-! ### Inside the buffer -/

section Bounds

variable {conn conn' : ScrcConnection}

theorem recvBlock_ends (h : conn.Bounded) (size : Nat) :
    ∃ conn' r, conn.recvBlock size = .ok (conn', r) ∧ conn'.Bounded ∧ conn'.columns = conn.columns
      ∧ conn'.left ≤ conn.left ∧ ∀ p, r = .ok p → p + size = conn'.rpos ∧ conn'.left + size ≤ conn.left := by
  obtain ⟨conn', r, hblock, hframed, htakes⟩ := recvBlock_spec h size
  refine ⟨conn', r, hblock, hframed.bounded, hframed.columns, ?_⟩
  rw [← length_view, ← length_view]
  cases r with
  | error ret =>
      rw [htakes.1]
      exact ⟨Nat.le_refl _, nofun⟩
  | ok p =>
      obtain ⟨-, hlen, -, hview, hpos⟩ := htakes
      rw [hview, List.length_drop]
      refine ⟨Nat.sub_le _ _, fun p' hp => ?_⟩
      cases hp
      exact ⟨hpos, Nat.le_of_eq (Nat.sub_add_cancel hlen)⟩

theorem recvCmd_ends (h : conn.Bounded) :
    ∃ conn' r, conn.recvCmd = .ok (conn', r) ∧ conn'.Bounded ∧ conn'.columns = conn.columns
      ∧ conn'.left ≤ conn.left ∧ ∀ cmd, r = .ok cmd → conn'.left < conn.left := by
  obtain ⟨conn₁, r, hblock, hbounded, hcolumns, hle, hpos⟩ := recvBlock_ends h sizeofScrcCmd
  unfold recvCmd
  rw [hblock]
  cases r with
  | error ret => exact ⟨conn₁, _, rfl, hbounded, hcolumns, hle, nofun⟩
  | ok p =>
      refine ⟨conn₁, _, rfl, hbounded, hcolumns, hle, fun _ _ => ?_⟩
      have htaken : conn₁.left + sizeofScrcCmd ≤ conn.left := (hpos p rfl).2
      exact Nat.lt_of_lt_of_le (Nat.lt_add_of_pos_right (by decide)) htaken

theorem recvRow_ends (h : conn.Bounded) :
    ∃ conn' r, conn.recvRow = .ok (conn', r) ∧ conn'.Bounded ∧ conn'.columns = conn.columns
      ∧ ∀ row, r = .ok row → row.1 + row.2 = conn'.rpos ∧ conn'.left < conn.left := by
  obtain ⟨conn₁, r, hcmd, hbounded, hcolumns, hle, hlt⟩ := recvCmd_ends h
  unfold recvRow
  rw [hcmd]
  simp only [bind, Except.bind]
  by_cases hend : r.toOption.getD 0 = scrcCmdEnd
  · rw [if_pos hend]
    exact ⟨conn₁, _, rfl, hbounded, hcolumns, nofun⟩
  · rw [if_neg hend]
    by_cases hrow : r.toOption.getD 0 ≠ scrcCmdRow
    · rw [if_pos hrow]
      exact ⟨conn₁, _, rfl, hbounded, hcolumns, nofun⟩
    · rw [if_neg hrow]
      have hshort : conn₁.left < conn.left := by
        cases r with
        | error ret => exact absurd (show (0 : UInt32) ≠ scrcCmdRow by decide) hrow
        | ok cmd => exact hlt cmd rfl
      obtain ⟨conn₂, r₂, hsize, hbounded₂, hcolumns₂, hle₂, -⟩ := recvBlock_ends hbounded sizeofSizeT
      rw [hsize]
      cases r₂ with
      | error ret => exact ⟨conn₂, _, rfl, hbounded₂, hcolumns₂.trans hcolumns, nofun⟩
      | ok p₂ =>
          obtain ⟨conn₃, r₃, hbody, hbounded₃, hcolumns₃, hle₃, hpos₃⟩ :=
            recvBlock_ends hbounded₂ (LittleEndian.ofBytes (slice conn₂.rbuf p₂ sizeofSizeT))
          have hsame : conn₃.columns = conn.columns := hcolumns₃.trans (hcolumns₂.trans hcolumns)
          simp only [hbody]
          cases r₃ with
          | error ret => exact ⟨conn₃, _, rfl, hbounded₃, hsame, nofun⟩
          | ok p₃ =>
              refine ⟨conn₃, _, rfl, hbounded₃, hsame, fun row hrow => ?_⟩
              cases hrow
              exact ⟨(hpos₃ p₃ rfl).1, by omega⟩

theorem headerLineLoop_bounded (room : Nat) {start : Nat} {name : Option Nat} {r : Except UInt32 HeaderLine}
    (h : conn.Bounded) (hline : headerLineLoop room conn start name = .ok (conn', r)) : conn'.Bounded := by
  induction room generalizing conn start name with
  | zero =>
      cases hline
      exact h
  | succ room ih =>
      obtain ⟨conn₁, r₁, hblock, hbounded, -⟩ := recvBlock_ends h 1
      rw [headerLineLoop, hblock] at hline
      cases r₁ with
      | error ret =>
          cases hline
          exact hbounded
      | ok p =>
          simp only [bind, Except.bind] at hline
          split at hline
          · obtain ⟨⟨rbuf, src⟩, -, hline⟩ := bind_eq_ok.mp hline
            exact ih (show Bounded { conn₁ with rbuf } from ⟨hbounded.rpos_le, hbounded.rlen_le⟩) hline
          · split at hline
            · obtain ⟨⟨rbuf, src⟩, -, hline⟩ := bind_eq_ok.mp hline
              cases name with
              | none =>
                  cases hline
                  exact ⟨hbounded.rpos_le, hbounded.rlen_le⟩
              | some name =>
                  cases hline
                  exact ⟨hbounded.rpos_le, hbounded.rlen_le⟩
            · exact ih hbounded hline

theorem recvHeaderLine_bounded {r : Except UInt32 HeaderLine} (h : conn.Bounded)
    (hline : conn.recvHeaderLine = .ok (conn', r)) : conn'.Bounded := by
  obtain ⟨conn₁, r₁, hblock, hbounded, -⟩ := recvBlock_ends h 1
  rw [recvHeaderLine, hblock] at hline
  cases r₁ with
  | error ret =>
      cases hline
      exact hbounded
  | ok p =>
      simp only [bind, Except.bind] at hline
      split at hline
      · cases hline
        exact hbounded
      · exact headerLineLoop_bounded _ hbounded hline

theorem headerLoop_bounded (fuel : Nat) {ret : UInt32} (h : conn.Bounded)
    (hheader : headerLoop fuel conn = .ok (conn', ret)) : conn'.Bounded := by
  induction fuel generalizing conn with
  | zero => cases hheader
  | succ fuel ih =>
      obtain ⟨⟨conn₁, r⟩, hline, hheader⟩ := bind_eq_ok.mp hheader
      have hbounded := recvHeaderLine_bounded h hline
      cases r with
      | error ret =>
          cases hheader
          exact hbounded
      | ok hl =>
          obtain ⟨name, -, hheader⟩ := bind_eq_ok.mp hheader
          obtain ⟨value, -, hheader⟩ := bind_eq_ok.mp hheader
          split at hheader
          · cases hheader
            exact hbounded
          · refine ih ?_ hheader
            exact ⟨hbounded.rpos_le, hbounded.rlen_le⟩

theorem columnsLoop_bounded (fuel : Nat) {r : Except UInt32 Unit} (h : conn.Bounded)
    (hloop : columnsLoop fuel conn = .ok (conn', r)) : conn'.Bounded := by
  induction fuel generalizing conn with
  | zero => cases hloop
  | succ fuel ih =>
      obtain ⟨conn₁, r₁, hrow, hbounded, -⟩ := recvRow_ends h
      rw [columnsLoop, hrow] at hloop
      simp only [bind, Except.bind] at hloop
      cases r₁ with
      | error ret =>
          dsimp only at hloop
          split at hloop
          · cases hloop
            exact ⟨hbounded.rpos_le, hbounded.rlen_le⟩
          · cases hloop
            exact hbounded
      | ok row =>
          dsimp only at hloop
          split at hloop
          · cases hloop
          · refine ih ?_ hloop
            exact ⟨hbounded.rpos_le, hbounded.rlen_le⟩

theorem recvTable_bounded {ret : UInt32} (h : conn.Bounded) (htable : conn.recvTable = .ok (conn', ret)) :
    conn'.Bounded := by
  obtain ⟨conn₁, r, hcmd, hbounded, -⟩ := recvCmd_ends h
  rw [recvTable, hcmd] at htable
  simp only [bind, Except.bind] at htable
  cases r with
  | error ret =>
      cases htable
      exact ⟨hbounded.rpos_le, hbounded.rlen_le⟩
  | ok cmd =>
      dsimp only at htable
      split at htable
      · cases htable
        exact ⟨hbounded.rpos_le, hbounded.rlen_le⟩
      · obtain ⟨⟨conn₂, r₂⟩, hloop, htable⟩ := bind_eq_ok.mp htable
        have hbounded₂ := columnsLoop_bounded _ hbounded hloop
        cases r₂ with
        | error ret =>
            cases htable
            exact ⟨hbounded₂.rpos_le, hbounded₂.rlen_le⟩
        | ok _ =>
            obtain ⟨conn₃, r₃, hcmd₃, hbounded₃, -⟩ := recvCmd_ends hbounded₂
            simp only [hcmd₃] at htable
            cases r₃ with
            | error ret =>
                cases htable
                exact ⟨hbounded₃.rpos_le, hbounded₃.rlen_le⟩
            | ok cmd =>
                dsimp only at htable
                split at htable
                · cases htable
                  exact ⟨hbounded₃.rpos_le, hbounded₃.rlen_le⟩
                · cases htable
                  exact ⟨hbounded₃.rpos_le, hbounded₃.rlen_le⟩

theorem scrcQuery_bounded {query : Option (List UInt8)} {sent ret : UInt32} (h : conn.Bounded)
    (hquery : conn.scrcQuery query sent = .ok (conn', ret)) : conn'.Bounded := by
  unfold scrcQuery at hquery
  split at hquery
  · cases hquery
    exact h
  · cases query with
    | none =>
        cases hquery
        exact h
    | some query =>
        by_cases hsent : (if query = [] then scrcOk else sent) ≠ scrcOk
        · simp only [if_pos hsent] at hquery
          cases hquery
          exact ⟨h.rpos_le, h.rlen_le⟩
        · simp only [if_neg hsent] at hquery
          obtain ⟨⟨conn₁, ret₁⟩, hheader, hquery⟩ := bind_eq_ok.mp hquery
          have hbounded := headerLoop_bounded _
            (show Bounded { conn with columns := [], body := false } from ⟨h.rpos_le, h.rlen_le⟩) hheader
          dsimp only at hquery
          split at hquery
          · cases hquery
            exact ⟨hbounded.rpos_le, hbounded.rlen_le⟩
          · split at hquery
            · cases hquery
              exact hbounded
            · exact recvTable_bounded hbounded hquery

theorem scrcFetchRow_bounded {ret : UInt32} {row : Option (Option (Nat × Nat))} (h : conn.Bounded)
    (hfetch : conn.scrcFetchRow = .ok (conn', ret, row)) : conn'.Bounded := by
  obtain ⟨conn₁, r, hrow, hbounded, -⟩ := recvRow_ends h
  unfold scrcFetchRow at hfetch
  split at hfetch
  · cases hfetch
    exact ⟨h.rpos_le, h.rlen_le⟩
  · rw [hrow] at hfetch
    cases r with
    | error ret =>
        cases hfetch
        exact ⟨hbounded.rpos_le, hbounded.rlen_le⟩
    | ok row =>
        cases hfetch
        exact ⟨hbounded.rpos_le, hbounded.rlen_le⟩

theorem scrcFetchCell_bounded (h : conn.Bounded) (row : Option Nat) (n : Nat) :
    (conn.scrcFetchCell row n).1.Bounded := by
  unfold scrcFetchCell
  cases row with
  | none => exact ⟨h.rpos_le, h.rlen_le⟩
  | some row =>
      dsimp only
      split
      · exact ⟨h.rpos_le, h.rlen_le⟩
      · exact ⟨h.rpos_le, h.rlen_le⟩

end Bounds

/-! ### Columns -/

section Columns

variable {conn : ScrcConnection}

theorem columns_columnsLoop (fuel : Nat) {conn' : ScrcConnection} {r : Except UInt32 Unit} (h : conn.Bounded)
    (hloop : columnsLoop fuel conn = .ok (conn', r)) : ∃ more, conn'.columns = conn.columns ++ more := by
  induction fuel generalizing conn with
  | zero => cases hloop
  | succ fuel ih =>
      obtain ⟨conn₁, r₁, hrow, hbounded, hcolumns, -⟩ := recvRow_ends h
      rw [columnsLoop, hrow] at hloop
      simp only [bind, Except.bind] at hloop
      rw [← hcolumns]
      cases r₁ with
      | error ret =>
          dsimp only at hloop
          split at hloop
          · cases hloop
            exact ⟨[], (List.append_nil _).symm⟩
          · cases hloop
            exact ⟨[], (List.append_nil _).symm⟩
      | ok row =>
          dsimp only at hloop
          split at hloop
          · cases hloop
          · obtain ⟨more, hmore⟩ := ih (by exact ⟨hbounded.rpos_le, hbounded.rlen_le⟩) hloop
            exact ⟨_, hmore.trans (List.append_assoc _ _ _)⟩

/-- The columns of the loop are the beginnings of their records exactly if no record is shorter than the struct. -/
theorem columnsInside_iff {fuel : Nat} (h : conn.Bounded) (hfuel : conn.left < fuel) :
    ColumnsInside fuel conn ↔ ColumnsKept fuel conn := by
  induction fuel generalizing conn with
  | zero => exact absurd hfuel (Nat.not_lt_zero _)
  | succ fuel ih =>
      obtain ⟨conn₁, r, hrow, hbounded, hcolumns, hpos⟩ := recvRow_ends h
      unfold ColumnsInside ColumnsKept
      rw [columnsLoop, columnRecords, hrow]
      simp only [bind, Except.bind]
      cases r with
      | error ret =>
          dsimp only
          refine iff_of_true ?_ (by intro conn' p size h; cases h)
          split
          · exact ⟨_, _, [], rfl, by rw [List.append_nil]; exact hcolumns, .nil⟩
          · exact ⟨_, _, [], rfl, by rw [List.append_nil]; exact hcolumns, .nil⟩
      | ok row =>
          obtain ⟨p, size⟩ := row
          obtain ⟨hrpos, hleft⟩ := hpos _ rfl
          have hrpos : p + size = conn₁.rpos := hrpos
          have hrest := ih
            (show Bounded { conn₁ with columns := conn₁.columns ++ [slice conn₁.rbuf p sizeofColumn] } from
              ⟨hbounded.rpos_le, hbounded.rlen_le⟩) (show conn₁.left < fuel by omega)
          have hle := hbounded.rpos_le
          have hfull := hbounded.rlen_le
          dsimp only
          constructor
          · rintro ⟨conn', ret, copies, hloop, hcopies, hinside⟩
            split at hloop
            · cases hloop
            · obtain ⟨more, hmore⟩ := columns_columnsLoop fuel
                (show Bounded { conn₁ with columns := conn₁.columns ++ [slice conn₁.rbuf p sizeofColumn] } from
                  ⟨hbounded.rpos_le, hbounded.rlen_le⟩) hloop
              have hmore : conn'.columns = conn.columns ++ (slice conn₁.rbuf p sizeofColumn :: more) := by
                rw [hmore, ← hcolumns, List.append_assoc]
                rfl
              obtain rfl := List.append_cancel_left (hcopies.symm.trans hmore)
              obtain ⟨hfirst, hinside⟩ := List.forall₂_cons.mp hinside
              have hsize : sizeofColumn ≤ size := by
                have hlen := hfirst.length_le
                rwa [length_slice, length_slice] at hlen
              rintro _ _ _ ⟨⟩
              refine ⟨hsize, hrest.mp ⟨conn', ret, more, hloop, ?_, hinside⟩⟩
              rw [hmore, ← hcolumns, List.append_assoc]
              rfl
          · intro hkept
            obtain ⟨hsize, hkept⟩ := hkept _ _ _ rfl
            obtain ⟨conn', ret, copies, hloop, hcopies, hinside⟩ := hrest.mpr hkept
            rw [if_neg (by omega)]
            refine ⟨conn', ret, slice conn₁.rbuf p sizeofColumn :: copies, hloop, ?_, .cons ?_ hinside⟩
            · rw [hcopies, hcolumns, List.append_assoc]
              rfl
            · rw [← take_slice conn₁.rbuf p hsize]
              exact List.take_prefix _ _

end Columns

end ScrcConnection

/-! ### Runs -/

open ScrcConnection

/-- A client with the size of the record that its row points at. -/
structure Reader where
  client : Client
  rowsz : Nat

namespace Reader

/-- A call; the size of the record is the number of bytes of the row that was fetched last. -/
def step (r : Reader) (call : Client.Call) : Except Fault (Reader × Client.Reply) := do
  let (client, reply) ← r.client.step call
  return (⟨client, (reply.row.bind id).elim r.rowsz List.length⟩, reply)

/-- A reader that has just connected. -/
def connected (rbuf : Nat → UInt8) (outcomes : List Transfer) (stream : List UInt8) : Reader :=
  ⟨.connected rbuf outcomes stream, 0⟩

/-- Every column that a query copies comes out of its record, and a cell that is handed out with `SCRC_OK` lies in
the record of the row. -/
def Inside (r : Reader) : Client.Call → Prop
  | .query query sent =>
      ∀ conn, r.client.conn.ReadsColumns query sent conn → ColumnsInside (conn.left + 1) conn
  | .fetchRow => True
  | .fetchCell n =>
      ∀ conn p size, r.client.conn.scrcFetchCell r.client.row n = (conn, scrcOk, some ⟨some p, size⟩) →
        ∃ row, r.client.row = some row ∧ row ≤ p ∧ p + size ≤ row + r.rowsz

/-- The server announces no column with less than the size of the struct, and sends no row that ends in front of the
end of a cell that is fetched. -/
def Fits (r : Reader) : Client.Call → Prop
  | .query query sent =>
      ∀ conn, r.client.conn.ReadsColumns query sent conn → ColumnsKept (conn.left + 1) conn
  | .fetchRow => True
  | .fetchCell n =>
      r.client.row ≠ none → ∀ column, r.client.conn.columns[n]? = some column →
        columnOffs column + columnSize column ≤ r.rowsz

variable {r : Reader}

theorem readsColumns_bounded {conn conn' : ScrcConnection} {query : Option (List UInt8)} {sent : UInt32}
    (h : conn.Bounded) (hreads : conn.ReadsColumns query sent conn') : conn'.Bounded := by
  obtain ⟨-, -, conn₁, hheader, -, hcmd⟩ := hreads
  have hbounded := headerLoop_bounded _
    (show Bounded { conn with columns := [], body := false } from ⟨h.rpos_le, h.rlen_le⟩) hheader
  obtain ⟨conn₂, r, hcmd₂, hbounded₂, -⟩ := recvCmd_ends hbounded
  rw [hcmd] at hcmd₂
  cases hcmd₂
  exact hbounded₂

theorem fetchCell_inside_iff (n : Nat) : r.Inside (.fetchCell n) ↔ r.Fits (.fetchCell n) := by
  unfold Inside Fits scrcFetchCell
  cases r.client.row with
  | none =>
      refine iff_of_true (fun conn p size h => ?_) fun h => absurd rfl h
      cases h
  | some row =>
      cases hcolumn : r.client.conn.columns[n]? with
      | none =>
          simp only [hcolumn]
          refine iff_of_true (fun conn p size h => ?_) fun _ _ h => ?_
          · cases h
          · cases h
      | some column =>
          simp only [hcolumn]
          constructor
          · rintro h - _ ⟨⟩
            obtain ⟨row', hrow, -, hle⟩ := h _ _ _ rfl
            cases hrow
            omega
          · rintro h conn p size ⟨⟩
            have hle := h nofun column rfl
            exact ⟨row, rfl, Nat.le_add_right _ _, by omega⟩

theorem inside_iff (h : r.client.conn.Bounded) (call : Client.Call) : r.Inside call ↔ r.Fits call := by
  cases call with
  | query query sent =>
      exact forall_congr' fun conn => forall_congr' fun hreads =>
        columnsInside_iff (readsColumns_bounded h hreads) (Nat.lt_succ_self _)
  | fetchRow => exact Iff.rfl
  | fetchCell n => exact fetchCell_inside_iff n

theorem step_bounded {r' : Reader} {call : Client.Call} {reply : Client.Reply} (h : r.client.conn.Bounded)
    (hstep : r.step call = .ok (r', reply)) : r'.client.conn.Bounded := by
  obtain ⟨⟨client, reply⟩, hcall, hstep⟩ := bind_eq_ok.mp hstep
  cases hstep
  cases call with
  | query query sent =>
      obtain ⟨⟨conn, status⟩, hquery, hcall⟩ := bind_eq_ok.mp hcall
      cases hcall
      exact scrcQuery_bounded h hquery
  | fetchRow =>
      obtain ⟨⟨conn, status, row⟩, hfetch, hcall⟩ := bind_eq_ok.mp hcall
      cases hcall
      exact scrcFetchRow_bounded h hfetch
  | fetchCell n =>
      cases hcall
      exact scrcFetchCell_bounded h r.client.row n

/-- **Sizes.** A client stays inside of the records it receives exactly if the server sends sizes that fit. -/
theorem inside_iff_fits (rbuf : Nat → UInt8) (outcomes : List Transfer) (stream : List UInt8)
    (calls : List Client.Call) :
    Machine.Along step Inside (connected rbuf outcomes stream) calls ↔
      Machine.Along step Fits (connected rbuf outcomes stream) calls :=
  Machine.along_congr (fun r => r.client.conn.Bounded) (fun _ _ _ _ h hstep => step_bounded h hstep)
    (fun _ call h => inside_iff h call) ⟨Nat.le_refl _, Nat.zero_le _⟩

/-- A response whose only column is announced with no bytes. -/
def emptyColumn : List UInt8 :=
  ascii "Body: Yes\n$$\n" ++ LittleEndian.toBytes 4 1 ++ LittleEndian.toBytes 4 3 ++ LittleEndian.toBytes 8 0
    ++ LittleEndian.toBytes 4 4 ++ LittleEndian.toBytes 4 2

/-- The size that is announced for the first column of a response. -/
def announced (conn : ScrcConnection) : Option Nat := do
  let (conn₁, ret) ← conn.recvHeader.toOption
  let (conn₂, cmd) ← conn₁.recvCmd.toOption
  let (_, row) ← conn₂.recvRow.toOption
  if ret = scrcOk ∧ conn₁.body = true ∧ cmd.toOption = some scrcCmdTabheader then row.toOption.map Prod.snd else none

theorem announced_spec {conn : ScrcConnection} {size : Nat} (h : announced conn = some size) :
    ∃ conn₁ conn₂ conn₃ row, conn.recvHeader = .ok (conn₁, scrcOk) ∧ conn₁.body = true
      ∧ conn₁.recvCmd = .ok (conn₂, .ok scrcCmdTabheader) ∧ conn₂.recvRow = .ok (conn₃, .ok (row, size)) := by
  have hok : ∀ {α β : Type} {x : Except α β} {b : β}, x.toOption = some b → x = .ok b := by
    intro α β x b hx
    cases x with
    | error e => cases hx
    | ok b' =>
        cases hx
        rfl
  obtain ⟨⟨conn₁, ret⟩, hheader, hrest⟩ := Option.bind_eq_some_iff.mp h
  obtain ⟨⟨conn₂, cmd⟩, hcmd, hrest⟩ := Option.bind_eq_some_iff.mp hrest
  obtain ⟨⟨conn₃, row⟩, hrow, hsize⟩ := Option.bind_eq_some_iff.mp hrest
  clear h hrest
  dsimp only at hsize
  split at hsize
  · next hstatus =>
    obtain ⟨rfl, hbody, htab⟩ := hstatus
    obtain ⟨⟨p, size⟩, hplace, rfl⟩ := Option.map_eq_some_iff.mp hsize
    obtain rfl := hok hplace
    obtain rfl := hok htab
    exact ⟨conn₁, conn₂, conn₃, p, hok hheader, hbody, hok hcmd, hok hrow⟩
  · cases hsize

/-- 40 bytes are copied out of a record of none. -/
theorem not_inside_emptyColumn :
    ¬ Machine.Along step Inside (connected (fun _ => 0) [] emptyColumn) [.query (some [1]) scrcOk] := by
  intro halong
  have hinside := halong [] (.query (some [1]) scrcOk) [] _ [] rfl rfl
  have hbounded : (connected (fun _ => 0) [] emptyColumn).client.conn.Bounded := ⟨Nat.le_refl _, Nat.zero_le _⟩
  have hfits := (inside_iff hbounded _).mp hinside
  have hannounced : announced (connected (fun _ => 0) [] emptyColumn).client.conn = some 0 := by decide +kernel
  obtain ⟨conn₁, conn₂, conn₃, row, hheader, hbody, hcmd, hrow⟩ := announced_spec hannounced
  have hsize := (hfits conn₂ ⟨rfl, ⟨[1], rfl, rfl⟩, conn₁, hheader, hbody, hcmd⟩ conn₃ row 0 hrow).1
  exact absurd hsize (by decide)

end Reader

end Scroller
